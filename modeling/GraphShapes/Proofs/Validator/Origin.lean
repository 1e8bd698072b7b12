import GraphShapes.Proofs.Planner.Marked
import GraphShapes.Proofs.Validator.Evaluation
import GraphShapes.Proofs.Validator.Failing

/-!
# Where violations come from

Every violation in a report was found by evaluating an active top-level shape of an active node
shape, and is a row of the shape's plan (`Validator.origin_of_mem`). So what is true of all rows of
planned shapes is true of what is reported: the violation has the scope of the pass, its focus is
selected by the node shape, and its trace leads through active shapes of the tree up to the
top-level shape (`Validator.violations_vouched`).

A pass over sources that fail is no exception. If it ends with a report, it is the report of the
pass over steady sources with the same statements.
-/

namespace GraphShapes

namespace Pass

variable {α β : Type} {Q : α → Prop} {R : β → Prop}

/-- Whatever plans were reported before: if the step succeeds, then with something that satisfies
the condition. -/
def Ensures (step : Pass α) (Q : α → Prop) : Prop :=
  ∀ before a after, step.run.run before = (.ok a, after) → Q a

theorem Ensures.pure {a : α} (h : Q a) : Ensures (Pure.pure a) Q := by
  rintro before b after ⟨⟩
  exact h

/-- One step after the other: the second may rely on what the first ensures. -/
theorem Ensures.bind {step : Pass α} {f : α → Pass β} (h : step.Ensures Q)
    (hf : ∀ a, Q a → (f a).Ensures R) : (step >>= f).Ensures R := by
  intro before b after hrun
  obtain ⟨a, between, hstep, hrun⟩ := exists_of_run_bind hrun
  exact hf a (h before a between hstep) between b after hrun

/-- Whatever the first step comes to. -/
theorem Ensures.after {step : Pass α} {f : α → Pass β} (hf : ∀ a, (f a).Ensures R) :
    (step >>= f).Ensures R :=
  Ensures.bind (Q := fun _ => True) (fun _ _ _ _ => trivial) fun a _ => hf a

/-- A step ensures what its result satisfies. -/
theorem Gives.ensures {step : Pass α} {x : Except PassError α} (h : step.Gives x)
    (hx : ∀ a, x = .ok a → Q a) : step.Ensures Q := by
  intro before a after hrun
  obtain ⟨after', hrun'⟩ := h before
  exact hx a (congrArg Prod.fst (hrun'.symm.trans hrun))

end Pass

open Pass (Ensures)

namespace Validator

/-! ## Rows of plans -/

/-- What is read up to a cap was delivered. -/
theorem mem_items_of_readUpTo {cap : Option UInt64} {feed : RowFeed} {read : List Row × Bool}
    (h : readUpTo cap feed = .ok read) {r : Row} (hr : r ∈ read.1) : r ∈ feed.items := by
  obtain ⟨rows, more⟩ := read
  cases cap with
  | some n => exact List.mem_of_mem_take (Feed.items_of_takeUpTo h ▸ hr)
  | none =>
    have h : feed.toExcept.map (·, false) = .ok (rows, more) := h
    cases hall : feed.toExcept with
    | error e => rw [hall] at h; cases h
    | ok all =>
      rw [hall] at h
      cases h
      rwa [Feed.items_of_toExcept hall]

/-- The violation is a row of the plan that the shape has without splitters. -/
def Origin (ctx : Context) (node : NodeShape) (shape : Shape) (violation : Violation) : Prop :=
  ∃ q r, shape.unshared ctx (.root node) none false = .ok (some q) ∧ r ∈ q.items ∧
    violation = .ofRow node.id shape r

/-- All violations that were found satisfy the condition. -/
def All (P : Violation → Prop) (found : Findings) : Prop :=
  ∀ violation ∈ found.violations, P violation

variable {config : Config} {ctx : Context} {node : NodeShape} {P : Violation → Prop}

theorem all_skip (n : Nat) : All P (.skip n) := fun _ hv => absurd hv List.not_mem_nil

/-- What holds of two lists of findings holds of both together. -/
theorem All.append {found later : Findings} (h : All P found) (h' : All P later) :
    All P (found.append later) := by
  intro violation hv
  rcases List.mem_append.1 hv with hv | hv
  · exact h violation hv
  · exact h' violation hv

/-- What is found of a shape is a row of its plan. -/
theorem evaluate_ensures {shape : Shape}
    (h : ∀ violation, Origin ctx node shape violation → P violation) :
    (evaluate config ctx node shape).Ensures (All P) := by
  refine (evaluate_gives config ctx node shape).ensures fun result hresult => ?_
  cases hplan : shape.unshared ctx (.root node) none false with
  | error e => rw [hplan] at hresult; cases hresult
  | ok plan =>
    rw [hplan] at hresult
    cases plan with
    | none =>
      obtain rfl := Except.ok.inj hresult
      exact all_skip 1
    | some q =>
      rw [evaluated] at hresult
      cases hfeed : q.delivery with
      | error e => rw [hfeed] at hresult; cases hresult
      | ok feed =>
        rw [hfeed] at hresult
        -- what was read are rows of the plan, from the front
        have hresult : ((readUpTo config.maxViolationsPerShape feed).mapError PassError.operator >>=
            fun read => pure (Findings.ofRows node shape read)) = .ok result := hresult
        cases hread : readUpTo config.maxViolationsPerShape feed with
        | error e => rw [hread] at hresult; cases hresult
        | ok read =>
          rw [hread] at hresult
          obtain rfl := Except.ok.inj hresult
          intro violation hv
          obtain ⟨r, hr, rfl⟩ := List.mem_map.1 hv
          have hr : r ∈ q.items := Plan.items_of_delivery hfeed ▸ mem_items_of_readUpTo hread hr
          exact h _ ⟨q, r, hplan, hr, rfl⟩

/-- A shape is evaluated or passed over. -/
theorem ensures_examine_of {shape : Shape} {Q : Findings → Prop}
    (hevaluate : (evaluate config ctx node shape).Ensures Q) (hskip : Q (.skip 1)) :
    (examine config ctx node shape).Ensures Q := by
  rw [examine_constant]
  cases ctx.restriction with
  | none => exact hevaluate
  | some delta =>
    refine Ensures.after fun touched => ?_
    cases touched with
    | true => exact hevaluate
    | false => exact .pure hskip

/-- So it is if the shape may be passed over. -/
theorem examine_ensures {shape : Shape}
    (h : ∀ violation, Origin ctx node shape violation → P violation) :
    (examine config ctx node shape).Ensures (All P) :=
  ensures_examine_of (evaluate_ensures h) (all_skip 1)

/-- So it is for the shapes of a node shape, of which some may not be reached. -/
theorem examineAll_ensures : ∀ {shapes : List Shape},
    (∀ shape ∈ shapes, ∀ violation, Origin ctx node shape violation → P violation) →
      (examineAll config ctx node shapes).Ensures fun result => All P result.1
  | [], _ => .pure (all_skip 0)
  | _ :: _, h => by
    obtain ⟨hshape, hrest⟩ := List.forall_mem_cons.1 h
    refine (examine_ensures hshape).bind fun first hfirst => ?_
    cases ends config first with
    | true => exact .pure hfirst
    | false => exact (examineAll_ensures hrest).bind fun _ hlater => .pure (hfirst.append hlater)

/-- So it is for all node shapes that are active. -/
theorem examineNodes_ensures : ∀ {nodes : List NodeShape},
    (∀ node ∈ nodes, node.deactivated = false → ∀ shape ∈ node.shapes,
      ∀ violation, Origin ctx node shape violation → P violation) →
      (examineNodes config ctx nodes).Ensures (All P)
  | [], _ => .pure (all_skip 0)
  | node :: rest, h => by
    obtain ⟨hnode, hrest⟩ := List.forall_mem_cons.1 h
    have hlater : ∀ {first : Findings}, All P first →
        Ensures (do return first.append (← examineNodes config ctx rest)) (All P) :=
      fun hfirst => (examineNodes_ensures hrest).bind fun _ hlater =>
        .pure (hfirst.append hlater)
    rw [examineNodes_cons]
    cases hd : node.deactivated with
    | true => exact hlater (all_skip _)
    | false =>
      refine Ensures.after fun touched => ?_
      cases touched with
      | false => exact hlater (all_skip _)
      | true =>
        refine (examineAll_ensures (hnode hd)).bind fun result hfirst => ?_
        obtain ⟨first, goesOn⟩ := result
        cases goesOn with
        | true => exact hlater hfirst
        | false => exact .pure hfirst

/-- Every violation of a report comes from a top-level shape of a node shape that is not switched
off. -/
theorem origin_of_mem {v : Validator} {stamp : PassStamp} {report : Report}
    (h : (outcome (v.run ctx stamp)).1 = .ok report) {violation : Violation}
    (hv : violation ∈ report.violations) : ∃ node ∈ v.shapes, node.deactivated = false ∧
      ∃ shape ∈ node.shapes, Origin ctx node shape violation := by
  have hall : (v.run ctx stamp).Ensures fun report => ∀ violation ∈ report.violations,
      ∃ node ∈ v.shapes, node.deactivated = false ∧
        ∃ shape ∈ node.shapes, Origin ctx node shape violation :=
    (examineNodes_ensures fun node hn hd shape hs _ ho => ⟨node, hn, hd, shape, hs, ho⟩).bind
      fun _ hfound => .pure hfound
  exact hall #[] report _ (Prod.ext h rfl) violation hv

/-- What ends with a report ends with the same report over steady sources. -/
theorem outcome_steady_eq {v : Validator} {stamp : PassStamp} {report : Report}
    (h : (outcome (v.run ctx stamp)).1 = .ok report) :
    (outcome (v.run ctx.steady stamp)).1 = .ok report := by
  rcases outcome_steady (steadies_run ctx v stamp .constant) with ⟨e, herror⟩ | ⟨report', hok, hsteady⟩
  · cases herror.symm.trans h
  · obtain rfl := Except.ok.inj (hok.symm.trans h)
    exact hsteady

/-! ## What a violation tells about itself -/

/-- The violation of the shape has this scope, its focus is selected by the node shape, and its
trace leads through active shapes of the tree and ends with the top-level shape. -/
structure Marks (scope : Scope) (G : Store) (node : NodeShape) (shape : Shape)
    (violation : Violation) : Prop where
  nodeShape : violation.nodeShape = node.id
  sourceShape : violation.sourceShape = shape.id
  scope : violation.scope = scope
  focus : violation.focus ∈ G.selection node.targets
  ends : violation.trace.getLast? = some shape.id
  trail : Trail shape.Active violation.trace

/-- A row of a plan carries the marks that a violation is to have. -/
theorem marks_of_origin (hs : ctx.source.Reliable) {shape : Shape} {violation : Violation}
    (h : Origin ctx node shape violation) :
    Marks ctx.scope ctx.source.store node shape violation := by
  obtain ⟨q, r, hplan, hr, rfl⟩ := h
  obtain ⟨hmarked, inner, htrace⟩ := shape.ensures_marked hs node.targets shape.Active
    (fun _ _ h => h) none false none Unshared.offerHas_none _ hplan q rfl r hr
  refine ⟨rfl, rfl, hmarked.scope, hmarked.selected, ?_, hmarked.trail⟩
  show r.trace.getLast? = _
  rw [htrace, List.getLast?_concat]

/-- Every violation of a report is marked, whatever pass it is and whatever scans fail. -/
theorem marks_of_mem {v : Validator} {stamp : PassStamp} {report : Report}
    (h : (outcome (v.run ctx stamp)).1 = .ok report) {violation : Violation}
    (hv : violation ∈ report.violations) : ∃ node ∈ v.shapes, node.deactivated = false ∧
      ∃ shape ∈ node.shapes, Marks ctx.scope ctx.source.store node shape violation := by
  obtain ⟨node, hn, hd, shape, hs, ho⟩ := origin_of_mem (outcome_steady_eq h) hv
  have hsteady : ctx.steady.source.Reliable := Source.reliable_ofStore _
  have hmarks := marks_of_origin hsteady ho
  have hscope : ctx.steady.scope = ctx.scope := by
    unfold Context.scope Context.isBulk
    rw [ctx.restriction_steady]
    cases ctx.restriction <;> rfl
  rw [hscope] at hmarks
  exact ⟨node, hn, hd, shape, hs, hmarks⟩

/-- What the violation tells about itself is so: it is about a selected target and a top-level
shape, both of one node shape, it has this scope, and its trace ends with the top-level shape and
consists of shapes of its tree at and above which nothing is switched off. -/
def Vouches (v : Validator) (scope : Scope) (G : Store) (violation : Violation) : Prop :=
  ∃ node ∈ v.shapes, node.deactivated = false ∧ ∃ shape ∈ node.shapes,
    violation.nodeShape = node.id ∧ violation.sourceShape = shape.id ∧ violation.scope = scope ∧
    violation.focus ∈ G.selection node.targets ∧ violation.trace ≠ [] ∧
    violation.trace.getLast? = some violation.sourceShape ∧
    ∀ id ∈ violation.trace, ∃ above, shape.Active id above

/-- Every violation of a report is vouched for, also if the sources can fail. -/
theorem vouches_of_mem {v : Validator} {stamp : PassStamp} {report : Report}
    (h : (outcome (v.run ctx stamp)).1 = .ok report) {violation : Violation}
    (hv : violation ∈ report.violations) : v.Vouches ctx.scope ctx.source.store violation := by
  obtain ⟨node, hn, hd, shape, hs, hm⟩ := marks_of_mem h hv
  refine ⟨node, hn, hd, shape, hs, hm.nodeShape, hm.sourceShape, hm.scope, hm.focus, ?_,
    hm.sourceShape ▸ hm.ends, fun id hid => hm.trail.exists_above hid⟩
  intro hnil
  have hends := hm.ends
  rw [hnil] at hends
  cases hends

/-- Whatever scans fail, what a violation in a report tells about itself is so. Its scope is that of
the pass: `delta` for a pass over a commit, unless the settings ask for all targets, and otherwise
`base`. -/
theorem violations_vouched (v : Validator) (stamp : PassStamp) :
    (∀ (tx : Transaction) (report : Report),
      (outcome (v.validate tx stamp)).1 = .ok report → ∀ violation ∈ report.violations,
        v.Vouches (if v.config.validateAll then .base else .delta) tx.after.store violation) ∧
    (∀ (source : Source) (report : Report),
      (outcome (v.validateAll source stamp)).1 = .ok report → ∀ violation ∈ report.violations,
        v.Vouches .base source.store violation) := by
  refine ⟨fun tx report h violation hv => ?_, fun source report h violation hv => ?_⟩
  · have hscope : (Context.incremental tx v.config).scope =
        if v.config.validateAll then .base else .delta := by
      unfold Context.scope Context.isBulk Context.restriction Context.incremental
      cases v.config.validateAll <;> rfl
    rw [← hscope]
    exact vouches_of_mem h hv
  · have hscope : (Context.bulk source v.config).scope = .base := by
      rw [Context.scope, Context.isBulk_bulk, if_pos rfl]
    rw [← hscope]
    exact vouches_of_mem h hv

/-- A text is added to a number. The branches are planned for the candidates, which have been
through one of them before, and yet the trace of the violation names nothing but shapes of the tree.
-/
theorem violations_vouched_text :
    ∃ report, (outcome (numbersOrSingleOnly.validate (.ofChange oneNumber oneText .empty))).1 =
        .ok report ∧
      report.violations = [⟨.iri "a", none, none, .delta, ⟨1⟩, ⟨10⟩, .disj,
        [⟨11⟩, ⟨11⟩, ⟨12⟩, ⟨10⟩]⟩] ∧
      ∀ violation ∈ report.violations, numbersOrSingleOnly.Vouches .delta
        (Transaction.ofChange oneNumber oneText .empty).after.store violation := by
  have hfound : (outcome (numbersOrSingleOnly.validate
      (.ofChange oneNumber oneText .empty))).1.toOption.map Report.violations =
      some [⟨.iri "a", none, none, .delta, ⟨1⟩, ⟨10⟩, .disj, [⟨11⟩, ⟨11⟩, ⟨12⟩, ⟨10⟩]⟩] := by
    decide +kernel
  obtain ⟨report, hreport, hviolations⟩ := exists_report_of_map hfound
  exact ⟨report, hreport, hviolations,
    (violations_vouched numbersOrSingleOnly {}).1 _ report hreport⟩

end Validator

end GraphShapes
