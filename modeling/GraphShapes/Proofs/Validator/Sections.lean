import GraphShapes.Proofs.Planner.Collect
import GraphShapes.Proofs.Planner.Scope
import GraphShapes.Validator

/-!
# A pass, shape by shape

A report lists the violations of all shapes, and a violation names its shapes by number only, which
need not be unique. What a pass finds for one top-level shape is therefore told by its place:
`Validator.sections` is the pass with the findings of every shape kept apart. Without `failFast` it
goes exactly as the pass goes, and the report is its findings one after the other (`outcome_run`).

Over sources that answer and without a cap, a pass over well-formed shapes succeeds, and finds for
every shape of an active node shape the lines that `Shape.changes` reports, each once and in
ascending order (`succeeds_sections`): it loses nothing when it passes over a shape or a node shape
that the delta cannot bear on. So it reports the targets that `Shape.changes` reports
(`reports_iff`).
-/

namespace GraphShapes

namespace Findings

/-- The findings of many parts of a pass, one after the other. -/
def concat (parts : List Findings) : Findings := parts.foldr append {}

/-- Findings may be put together in any grouping. -/
theorem append_assoc (a b c : Findings) : (a.append b).append c = a.append (b.append c) := by
  unfold append
  simp only [List.append_assoc, Nat.add_assoc]

theorem nil_append (found : Findings) : append {} found = found := by
  unfold append
  simp only [List.nil_append, Nat.zero_add]

theorem append_nil (found : Findings) : found.append {} = found := by
  unfold append
  simp only [List.append_nil, Nat.add_zero]

/-- The findings of two stretches of shapes, one after the other. -/
theorem concat_append (as bs : List Findings) :
    concat (as ++ bs) = (concat as).append (concat bs) := by
  induction as with
  | nil => exact (concat bs).nil_append.symm
  | cons a as ih =>
    show a.append (concat (as ++ bs)) = (a.append (concat as)).append (concat bs)
    rw [ih, append_assoc]

/-- Shapes that are passed over are only counted. -/
theorem concat_skips {α : Type} (shapes : List α) :
    concat (shapes.map fun _ => skip 1) = skip shapes.length := by
  induction shapes with
  | nil => rfl
  | cons s shapes ih =>
    show (skip 1).append (concat (shapes.map fun _ => skip 1)) = skip (shapes.length + 1)
    rw [ih, Nat.add_comm]
    rfl

/-- The violations come in the order of the shapes. -/
theorem violations_concat (parts : List Findings) :
    (concat parts).violations = parts.flatMap violations := by
  induction parts with
  | nil => rfl
  | cons a parts ih => rw [List.flatMap_cons, ← ih]; rfl

end Findings

namespace Validator

variable {config : Config} {ctx : Context}

/-! ## Sections -/

/-- What a pass finds for each top-level shape of a node shape. -/
def nodeSections (config : Config) (ctx : Context) (node : NodeShape) : Pass (List Findings) := do
  let touched ← if node.deactivated then pure false else Pass.ofError (nodeTouched ctx node)
  if touched then node.shapes.mapM (examine config ctx node)
  else return node.shapes.map fun _ => .skip 1

/-- What a pass finds for each top-level shape of each node shape. -/
def sections (config : Config) (ctx : Context) (nodes : List NodeShape) :
    Pass (List (List Findings)) :=
  nodes.mapM (nodeSections config ctx)

/-- Without `failFast` the shapes of a node shape are examined one by one, and the pass goes on. -/
theorem examineAll_eq (hf : config.failFast = false) (node : NodeShape) (shapes : List Shape) :
    examineAll config ctx node shapes = do
      let parts ← shapes.mapM (examine config ctx node)
      return (Findings.concat parts, true) := by
  induction shapes with
  | nil => rfl
  | cons s shapes ih =>
    have hends : ∀ found, ends config found = false := fun found => by
      rw [ends, hf]
      rfl
    rw [examineAll_cons, ih, List.mapM_cons]
    simp only [hends, bind_assoc, pure_bind]
    rfl

/-- The sections of a pass begin with those of its first node shape. -/
theorem sections_cons (node : NodeShape) (nodes : List NodeShape) :
    sections config ctx (node :: nodes) = do
      let parts ← nodeSections config ctx node
      let rest ← sections config ctx nodes
      return parts :: rest :=
  List.mapM_cons

/-- Without `failFast` the findings of a pass are its sections, one after the other. -/
theorem examineNodes_eq (hf : config.failFast = false) (nodes : List NodeShape) :
    examineNodes config ctx nodes = do
      let parts ← sections config ctx nodes
      return Findings.concat parts.flatten := by
  induction nodes with
  | nil => rfl
  | cons node nodes ih =>
    -- a node shape that is passed over counts its shapes as skipped
    have hskipped : (do
        let later ← sections config ctx nodes
        return (Findings.skip node.shapes.length).append (Findings.concat later.flatten)) = (do
        let later ← sections config ctx nodes
        return Findings.concat ((node.shapes.map fun _ => Findings.skip 1) :: later).flatten :
          Pass Findings) := by
      simp only [List.flatten_cons, Findings.concat_append, Findings.concat_skips]
    rw [examineNodes_cons, ih, sections_cons, nodeSections]
    cases node.deactivated with
    | true =>
      simp only [if_true, pure_bind, bind_assoc, Bool.false_eq_true, if_false]
      exact hskipped
    | false =>
      simp only [Bool.false_eq_true, if_false, bind_assoc]
      refine bind_congr fun touched => ?_
      cases touched with
      | true =>
        simp only [if_true, examineAll_eq hf, bind_assoc, pure_bind, List.flatten_cons,
          Findings.concat_append]
      | false =>
        simp only [Bool.false_eq_true, if_false, pure_bind]
        exact hskipped

end Validator

namespace Pass

variable {α β : Type} {before after : Array PlanReport}

/-- One step after the other: the second goes on with the plans that the first has reported. -/
theorem run_bind {step : Pass α} {a : α} (h : step.run.run before = (.ok a, after))
    (f : α → Pass β) : (step >>= f).run.run before = (f a).run.run after := by
  show (match step.run.run before with | (a, after) => ExceptT.bindCont f a after) = _
  rw [h]
  rfl

/-- After a failure nothing follows. -/
theorem run_bind_error {step : Pass α} {e : PassError}
    (h : step.run.run before = (.error e, after)) (f : α → Pass β) :
    (step >>= f).run.run before = (.error e, after) := by
  show (match step.run.run before with | (a, after) => ExceptT.bindCont f a after) = _
  rw [h]
  rfl

/-- If both steps succeed, then so does the first, and the second goes on from there. -/
theorem exists_of_run_bind {step : Pass α} {f : α → Pass β} {b : β}
    (h : (step >>= f).run.run before = (.ok b, after)) :
    ∃ a between, step.run.run before = (.ok a, between) ∧
      (f a).run.run between = (.ok b, after) := by
  cases hstep : step.run.run before with
  | mk result between =>
    cases result with
    | error e =>
      rw [run_bind_error hstep] at h
      cases h
    | ok a =>
      rw [run_bind hstep] at h
      exact ⟨a, between, rfl, h⟩

/-- Planning adds its reports to those of the pass. -/
theorem run_ofPlanning {step : Planning α} {a : α} {draft : Draft}
    (h : step.run.run {} = (.ok a, draft)) :
    (ofPlanning step).run.run before = (.ok (a, draft.splitters), before ++ draft.reports) := by
  unfold ofPlanning
  rw [h]
  rfl

/-- The step succeeds whatever plans were reported before it, and what it gives is as said. -/
def Succeeds (step : Pass α) (given : α → Prop) : Prop :=
  ∀ before, ∃ a after, step.run.run before = (.ok a, after) ∧ given a

/-- One step after the other, each of which succeeds. -/
theorem Succeeds.bind {step : Pass α} {f : α → Pass β} {P : α → Prop} {Q : β → Prop}
    (h : step.Succeeds P) (hf : ∀ a, P a → (f a).Succeeds Q) : (step >>= f).Succeeds Q := by
  intro before
  obtain ⟨a, after, hrun, ha⟩ := h before
  rw [run_bind hrun]
  exact hf a ha after

theorem Succeeds.pure {a : α} {P : α → Prop} (h : P a) : (pure a : Pass α).Succeeds P :=
  fun before => ⟨a, before, rfl, h⟩

/-- What is said of a result may be weakened. -/
theorem Succeeds.mono {step : Pass α} {P Q : α → Prop} (h : step.Succeeds P)
    (hPQ : ∀ a, P a → Q a) : step.Succeeds Q := by
  intro before
  obtain ⟨a, after, hrun, ha⟩ := h before
  exact ⟨a, after, hrun, hPQ a ha⟩

/-- A question to the data layer that is answered. -/
theorem succeeds_ofError {x : Except Error α} {a : α} (h : x = .ok a) :
    (ofError x).Succeeds fun b => b = a := by
  rw [h]
  exact .pure rfl

/-- A plan that can be read. -/
theorem succeeds_ofOp {x : Except OpError α} {a : α} (h : x = .ok a) :
    (ofOp x).Succeeds fun b => b = a := by
  rw [h]
  exact .pure rfl

/-- If every step succeeds, so does one after the other. -/
theorem succeeds_mapM {γ : Type} {f : γ → Pass α} {P : γ → α → Prop} :
    ∀ {items : List γ}, (∀ c ∈ items, (f c).Succeeds (P c)) →
      (items.mapM f).Succeeds (List.Forall₂ P items)
  | [], _ => .pure .nil
  | c :: items, h => by
    obtain ⟨hc, hitems⟩ := List.forall_mem_cons.1 h
    rw [List.mapM_cons]
    exact hc.bind fun a ha => (succeeds_mapM hitems).bind fun as has => .pure (.cons ha has)

end Pass

/-! ## What the sections hold -/

/-- The rows that are read under a cap, and whether there are more. -/
def Validator.cut (cap : Option UInt64) (rows : List Row) : List Row × Bool :=
  match cap with
  | some n => (rows.take n.toNat, decide (n.toNat < rows.length))
  | none => (rows, false)

namespace Findings

/-- What is found about a shape with this table: nothing without a table, and otherwise rows of one
scope with the lines of the table, each once and in ascending order, as far as the cap allows. -/
inductive Shows (config : Config) (scope : Scope) (id : ShapeId) (shape : Shape) :
    Option Table → Findings → Prop where
  | none : Shows config scope id shape none (skip 1)
  | some {table : Table} {rows : List Row} (strict : Row.Strict rows)
      (lines : Row.lines rows = table.lines) (ofScope : ∀ r ∈ rows, r.scope = scope) :
      Shows config scope id shape (some table)
        { violations := (Validator.cut config.maxViolationsPerShape rows).1.map (.ofRow id shape)
          truncated :=
            if (Validator.cut config.maxViolationsPerShape rows).2 then [shape.id] else []
          evaluated := 1 }

/-- The violations are these lines, each once and in ascending order. -/
def Tells (id : ShapeId) (shape : Shape) (lines : Finset (List Term)) (found : Findings) : Prop :=
  ∃ rows, found.violations = rows.map (.ofRow id shape) ∧ Row.Strict rows ∧ Row.lines rows = lines

variable {config : Config} {scope : Scope} {id : ShapeId} {shape : Shape} {found : Findings}
  {lines : Finset (List Term)}

/-- Without a cap, all lines of the table are told. -/
theorem Shows.tells {table : Option Table} (hcap : config.maxViolationsPerShape = .none)
    (h : Shows config scope id shape table found) : found.Tells id shape (Table.linesOf table) := by
  cases h with
  | none => exact ⟨[], rfl, .nil, rfl⟩
  | @some table rows hstrict hlines _ =>
    rw [hcap]
    exact ⟨rows, rfl, hstrict, hlines⟩

/-- A shape that is passed over tells that nothing was found. -/
theorem tells_skip (h : lines = ∅) (n : Nat) : (skip n).Tells id shape lines :=
  ⟨[], rfl, .nil, h.symm⟩

/-- What the lines are about, the violations are about. -/
theorem Tells.focus_iff (h : found.Tells id shape lines) (t : Term) :
    (∃ violation ∈ found.violations, violation.focus = t) ↔ ∃ l ∈ lines, l.head? = .some t := by
  obtain ⟨rows, hviolations, -, rfl⟩ := h
  rw [hviolations]
  constructor
  · intro hex
    obtain ⟨violation, hv, rfl⟩ := hex
    obtain ⟨row, hrow, rfl⟩ := List.mem_map.1 hv
    exact ⟨row.line, Row.mem_lines.2 ⟨row, hrow, rfl⟩, rfl⟩
  · intro hex
    obtain ⟨l, hl, ht⟩ := hex
    obtain ⟨row, hrow, rfl⟩ := Row.mem_lines.1 hl
    exact ⟨_, List.mem_map_of_mem hrow, Option.some.inj ht⟩

end Findings

/-- A plan that can be read to the end delivers just these rows. -/
theorem Plan.feedIn_of_collect {splitters : Splitters} {p : Plan} {rows : List Row}
    (h : p.collect splitters = .ok rows) : p.feedIn splitters = .ok (Feed.ofList rows) := by
  unfold collect at h
  cases hf : p.feedIn splitters with
  | error e => rw [hf] at h; cases h
  | ok feed => rw [hf] at h; rw [Feed.eq_ofList_of_toExcept h]

namespace Validator

/-- Reading rows up to a cap cuts their list. -/
theorem readUpTo_ofList (cap : Option UInt64) (rows : List Row) :
    readUpTo cap (Feed.ofList rows) = .ok (cut cap rows) := by
  cases cap with
  | none =>
    show (Feed.ofList rows).toExcept.map (·, false) = _
    rw [Feed.toExcept_ofList]
    rfl
  | some n => exact Feed.takeUpTo_ofList n.toNat rows

/-- The section of every shape tells the lines that are given for it. -/
def Told (lines : NodeShape → Shape → Finset (List Term)) (nodes : List NodeShape)
    (parts : List (List Findings)) : Prop :=
  List.Forall₂ (fun node row =>
    List.Forall₂ (fun s found => found.Tells node.id s (lines node s)) node.shapes row) nodes parts

section Reliable

variable {config : Config} {ctx : Context} (hr : ctx.Reliable) (node : NodeShape) {shape : Shape}

/-- Evaluating a shape finds what the pass reports about it, up to the cap. -/
theorem evaluate_shows (hw : shape.wellFormed = true) :
    (evaluate config ctx node shape).Succeeds (Findings.Shows config ctx.scope node.id shape
      (shape.changes (ctx.view node.targets hr) none false)) := by
  obtain ⟨plan, draft, hrun, hrel⟩ := Shape.plan_answers hr hw (.root node) false
  have hrel : Option.Rel (Plan.Answers draft.splitters) plan
      (shape.changes (ctx.view node.targets hr) none false) := hrel
  generalize shape.changes (ctx.view node.targets hr) none false = table at hrel ⊢
  intro before
  rw [evaluate_constant, Pass.run_bind (Pass.run_ofPlanning hrun)]
  cases hrel with
  | none => exact ⟨_, _, rfl, .none⟩
  | @some plan table hanswers =>
    obtain ⟨rows, hcollect, hstrict, hlines⟩ := hanswers.collects
    have hscope := Shape.scope_of_collect hr.source hrun hcollect
    refine (Pass.succeeds_ofOp (Plan.feedIn_of_collect hcollect)).bind ?_ _
    intro x heq
    subst heq
    refine (Pass.succeeds_ofOp (readUpTo_ofList _ rows)).bind ?_
    intro x heq
    subst heq
    exact .pure (.some hstrict hlines hscope)

include hr in
/-- A node shape that is passed over has only shapes that the delta cannot bear on. -/
theorem nodeTouched_eq (hd : node.deactivated = false) : ∃ b, nodeTouched ctx node = .ok b ∧
    (b = false → ∀ s ∈ node.shapes, s.touches (ctx.bears node.targets) none = false) := by
  rw [nodeTouched_constant]
  cases hrestriction : ctx.restriction with
  | none => exact ⟨true, rfl, nofun⟩
  | some delta =>
    obtain ⟨b, hb, -⟩ := Delta.touchesTargets_eq (hr.delta delta hrestriction) node.targets
    have hany : Shape.anyTouched delta node.shapes (.root node) =
        .ok (Shape.anyTouches (ctx.bears node.targets) node.shapes none) :=
      Shape.anyTouched_eq fun s _ => hr.touched_eq hrestriction node.targets s none
    refine ⟨b || Shape.anyTouches (ctx.bears node.targets) node.shapes none, ?_, fun hf s hs => ?_⟩
    · show node.touched delta = _
      unfold NodeShape.touched
      rw [hd]
      exact Except.or_eq_ok hb hany
    · rw [Bool.or_eq_false_iff, Shape.anyTouches_eq, List.any_eq_false] at hf
      exact Bool.eq_false_of_not_eq_true (hf.2 s hs)

/-- The lines that a pass reports for a shape of a node shape. -/
def foundLines (hr : ctx.Reliable) (node : NodeShape) (shape : Shape) : Finset (List Term) :=
  if node.deactivated then ∅
  else Table.linesOf (shape.changes (ctx.view node.targets hr) none false)

/-- The targets that a pass reports for a shape of a node shape. -/
def Finds (hr : ctx.Reliable) (node : NodeShape) (shape : Shape) (t : Term) : Prop :=
  node.deactivated = false ∧
    Table.Reports (shape.changes (ctx.view node.targets hr) none false) t

/-- The targets that are found are those of the lines that are found. -/
theorem finds_iff {t : Term} :
    Finds hr node shape t ↔ ∃ l ∈ foundLines hr node shape, l.head? = some t := by
  unfold Finds foundLines
  cases node.deactivated with
  | true => simp
  | false =>
    rw [Table.reports_iff]
    simp [Table.mem_linesOf]

/-- The view sees no target where the delta does not bear. -/
theorem linesOf_changes_of_untouched
    (h : shape.touches (ctx.bears node.targets) none = false) :
    Table.linesOf (shape.changes (ctx.view node.targets hr) none false) = ∅ :=
  (Shape.bare_changes (ctx.view node.targets hr) shape none false (.inl h)).linesOf_eq

variable (hcap : config.maxViolationsPerShape = none)
include hcap

/-- A shape that is passed over has nothing to report. -/
theorem succeeds_examine (hw : shape.wellFormed = true) :
    (examine config ctx node shape).Succeeds (Findings.Tells node.id shape
      (Table.linesOf (shape.changes (ctx.view node.targets hr) none false))) := by
  have hevaluate : (evaluate config ctx node shape).Succeeds _ :=
    (evaluate_shows hr node hw).mono fun _ h => h.tells hcap
  rw [examine_constant]
  cases hd : ctx.restriction with
  | none => exact hevaluate
  | some delta =>
    refine (Pass.succeeds_ofError (hr.touched_eq hd node.targets shape none)).bind ?_
    intro x heq
    subst heq
    cases ht : shape.touches (ctx.bears node.targets) none with
    | true => exact hevaluate
    | false => exact .pure (Findings.tells_skip (linesOf_changes_of_untouched hr node ht) 1)

/-- The shapes of a node shape are examined one after the other, and each tells what is found of it.
-/
theorem succeeds_nodeSections (hw : ∀ s ∈ node.shapes, s.wellFormed = true) :
    (nodeSections config ctx node).Succeeds (List.Forall₂
      (fun s found => found.Tells node.id s (foundLines hr node s)) node.shapes) := by
  have hskipped : ∀ {shapes : List Shape}, (∀ s ∈ shapes, foundLines hr node s = ∅) →
      List.Forall₂ (fun s found => Findings.Tells node.id s (foundLines hr node s) found) shapes
        (shapes.map fun _ => Findings.skip 1) := fun h =>
    List.forall₂_map_right_iff.2 (List.forall₂_same.2 fun s hs => Findings.tells_skip (h s hs) 1)
  unfold nodeSections
  cases hd : node.deactivated with
  | true => exact .pure (hskipped fun s _ => by rw [foundLines, hd]; rfl)
  | false =>
    have hlines : ∀ s, foundLines hr node s =
        Table.linesOf (s.changes (ctx.view node.targets hr) none false) := fun s => by
      rw [foundLines, hd]
      rfl
    -- the shapes are looked at one by one, or passed over together
    obtain ⟨b, hb, huntouched⟩ := nodeTouched_eq hr node hd
    refine (Pass.succeeds_ofError hb).bind ?_
    intro touched heq
    subst heq
    cases touched with
    | true =>
      refine Pass.succeeds_mapM fun s hs => ?_
      rw [hlines]
      exact succeeds_examine hr node hcap (hw s hs)
    | false =>
      refine .pure (hskipped fun s hs => ?_)
      rw [hlines]
      exact linesOf_changes_of_untouched hr node (huntouched rfl s hs)

/-- So it is for all node shapes of a pass. -/
theorem succeeds_sections {nodes : List NodeShape}
    (hw : ∀ node ∈ nodes, ∀ s ∈ node.shapes, s.wellFormed = true) :
    (sections config ctx nodes).Succeeds (Told (foundLines hr) nodes) :=
  Pass.succeeds_mapM fun node hn => succeeds_nodeSections hr node hcap (hw node hn)

end Reliable

/-! ## Reports -/

/-- The pass succeeds, its report lists what the sections hold, and in the section of the `j`-th
top-level shape of the `i`-th node shape there is a violation about the target. -/
def Reports (v : Validator) (ctx : Context) (i j : Nat) (t : Term) : Prop :=
  ∃ report plans parts found,
    outcome (v.run ctx {}) = (.ok report, plans) ∧
    (sections v.config ctx v.shapes).run.run #[] = (.ok parts, plans) ∧
    report.violations = parts.flatten.flatMap Findings.violations ∧
    (parts[i]?.bind fun row => row[j]?) = some found ∧
    ∃ violation ∈ found.violations, violation.focus = t

/-- Without `failFast`, a pass reports its sections one after the other. -/
theorem outcome_run {v : Validator} {ctx : Context} {parts : List (List Findings)}
    {plans : Array PlanReport} (hf : v.config.failFast = false)
    (h : (sections v.config ctx v.shapes).run.run #[] = (.ok parts, plans)) (stamp : PassStamp) :
    ∃ report, outcome (v.run ctx stamp) = (.ok report, plans) ∧
      report.violations = parts.flatten.flatMap Findings.violations := by
  unfold outcome run
  rw [examineNodes_eq hf, bind_assoc, Pass.run_bind h]
  exact ⟨_, rfl, Findings.violations_concat parts.flatten⟩

/-- Lists that are related item by item are related at every place. -/
theorem rel_getElem? {α β : Type} {R : α → β → Prop} {as : List α} {bs : List β}
    (h : List.Forall₂ R as bs) : ∀ i : Nat, Option.Rel R as[i]? bs[i]? := by
  induction h with
  | nil => exact fun _ => .none
  | cons hab _ ih =>
    intro i
    cases i with
    | zero => exact .some hab
    | succ i => exact ih i

/-- The `j`-th top-level shape of the `i`-th node shape. -/
def shapeAt (nodes : List NodeShape) (i j : Nat) : Option (NodeShape × Shape) :=
  nodes[i]?.bind fun node => node.shapes[j]?.map (node, ·)

/-- The section at a place belongs to the shape at that place. -/
theorem rel_shapeAt {R : NodeShape → Shape → Findings → Prop} {nodes : List NodeShape}
    {parts : List (List Findings)}
    (h : List.Forall₂ (fun node row => List.Forall₂ (R node) node.shapes row) nodes parts)
    (i j : Nat) : Option.Rel (fun place found => R place.1 place.2 found) (shapeAt nodes i j)
      (parts[i]?.bind fun row => row[j]?) := by
  have hrow := rel_getElem? h i
  unfold shapeAt
  generalize nodes[i]? = node at hrow ⊢
  generalize parts[i]? = row at hrow ⊢
  cases hrow with
  | none => exact .none
  | @some node row hrow =>
    have hfound := rel_getElem? hrow j
    show Option.Rel _ (node.shapes[j]?.map (node, ·)) row[j]?
    generalize node.shapes[j]? = s at hfound ⊢
    generalize row[j]? = found at hfound ⊢
    cases hfound with
    | none => exact .none
    | some hR => exact .some hR

/-- What a pass reports for a shape, by its place, is what `Shape.changes` says. -/
theorem reports_iff {v : Validator} (hf : v.config.failFast = false)
    (hcap : v.config.maxViolationsPerShape = none)
    (hw : ∀ node ∈ v.shapes, ∀ s ∈ node.shapes, s.wellFormed = true) {ctx : Context}
    (hr : ctx.Reliable) {i j : Nat} {t : Term} :
    v.Reports ctx i j t ↔ ∃ node s, shapeAt v.shapes i j = some (node, s) ∧
      Finds hr node s t := by
  obtain ⟨parts, plans, hsections, hparts⟩ := succeeds_sections hr hcap hw #[]
  obtain ⟨report, hrun, hviolations⟩ := outcome_run hf hsections {}
  have hplace := rel_shapeAt hparts i j
  constructor
  · intro h
    obtain ⟨report', plans', parts', found, -, hsections', -, hfound, hv⟩ := h
    -- the pass has no choice, so these are its sections
    rw [hsections] at hsections'
    cases hsections'
    rw [hfound] at hplace
    generalize hs : shapeAt v.shapes i j = place at hplace
    cases hplace with
    | @some place _ htells =>
      exact ⟨place.1, place.2, rfl, (finds_iff hr place.1).2 ((htells.focus_iff t).1 hv)⟩
  · intro h
    obtain ⟨node, s, hs, hfinds⟩ := h
    rw [hs] at hplace
    generalize hfound : (parts[i]?.bind fun row => row[j]?) = found at hplace
    cases hplace with
    | @some _ found htells =>
      exact ⟨report, plans, parts, found, hrun, hsections, hviolations, hfound,
        (htells.focus_iff t).2 ((finds_iff hr node).1 hfinds)⟩

end Validator

end GraphShapes
