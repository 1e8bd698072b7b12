import GraphShapes.Proofs.Planner.Settings
import GraphShapes.Proofs.Validator.Origin

/-!
# Limits only cut a report

Two settings keep reports small: a cap on the violations of a shape, and `failFast`, which ends the
pass after the first shape with violations. Neither decides anything about what is violated. If the
pass without them (`Validator.unlimited`) ends with a report, then the pass with them ends with one
that is cut from it (`Validator.limits_only_cut`): it handles the same shapes in the same order,
up to the first with violations if it is to fail fast, and reports of each as many of the same
violations as the cap allows.

The cap bears on one shape at a time, and `failFast` on which shapes come after it. So the pass is
compared with the sections of the unlimited pass, step by step. A step succeeds where the unlimited
one does, since it reads no further.
-/

namespace GraphShapes

/-! ## Settings without limits -/

/-- The settings without a cap and without `failFast`. -/
def Config.unlimited (config : Config) : Config :=
  { config with failFast := false, maxViolationsPerShape := none }

namespace Validator

/-- The validator without a cap and without `failFast`. -/
def unlimited (v : Validator) : Validator := { v with config := v.config.unlimited }

/-! ## What the limits leave -/

/-- Of the violations of a shape, as many as the cap allows. -/
def upToCap (config : Config) (violations : List Violation) : List Violation :=
  match config.maxViolationsPerShape with
  | some n => violations.take n.toNat
  | none => violations

/-- Are there more violations than the cap allows? -/
def exceedsCap (config : Config) (violations : List Violation) : Bool :=
  match config.maxViolationsPerShape with
  | some n => n.toNat < violations.length
  | none => false

/-- The shapes that a pass handles, with what there is to find: if it is to fail fast, those up to
and including the first one with violations. -/
def handled (config : Config) (found : List (Shape × Findings)) : List (Shape × Findings) :=
  if config.failFast then found.take (found.findIdx (fun e => !e.2.violations.isEmpty) + 1)
  else found

/-- What was found in a pass, each shape with its own. -/
def shapewise (nodes : List NodeShape) (parts : List (List Findings)) : List (Shape × Findings) :=
  (nodes.zip parts).flatMap fun part => part.1.shapes.zip part.2

end Validator

/-- The report of the pass lists exactly this, one shape after the other. -/
structure Report.Lists (full : Report) (v : Validator) (ctx : Context)
    (found : List (Shape × Findings)) : Prop where
  /-- It is what the pass finds about each shape. -/
  sections : ∃ parts plans,
    (Validator.sections v.config ctx v.shapes).run.run #[] = (.ok parts, plans) ∧
    found = Validator.shapewise v.shapes parts
  shapes : found.map Prod.fst = v.shapes.flatMap NodeShape.shapes
  violations : full.violations = found.flatMap fun e => e.2.violations
  skipped : ∀ e ∈ found, e.2.skipped ≠ 0 → e.2.violations = []

/-- The report lists what the limits leave of this. -/
structure Report.Cuts (report : Report) (v : Validator) (found : List (Shape × Findings)) :
    Prop where
  violations : report.violations = (Validator.handled v.config found).flatMap fun e =>
    Validator.upToCap v.config e.2.violations
  truncated : report.truncated = ((Validator.handled v.config found).filter fun e =>
    Validator.exceedsCap v.config e.2.violations).map fun e => e.1.id
  counted : report.manifest.violations = report.violations.length
  /-- No shape is counted that is not handled. -/
  handled : report.manifest.evaluated + report.manifest.skipped =
    (Validator.handled v.config found).length
  everything : v.config.failFast = false → report.manifest.evaluated + report.manifest.skipped =
    (v.shapes.flatMap NodeShape.shapes).length

namespace Findings

/-- What is found about one shape: it is counted once, and has no violations if it is skipped. -/
structure Single (found : Findings) : Prop where
  counted : found.evaluated + found.skipped = 1
  skipped : found.skipped ≠ 0 → found.violations = []

/-- What is found of a shape that is passed over counts one shape. -/
theorem Single.skip : (skip 1).Single := ⟨rfl, fun _ => rfl⟩

/-- What the limits leave of the findings of a shape. -/
def cut (config : Config) (shape : Shape) (found : Findings) : Findings :=
  { found with
    violations := Validator.upToCap config found.violations
    truncated := if Validator.exceedsCap config found.violations then [shape.id] else [] }

end Findings

namespace Validator

variable {config : Config}

/-! ## One shape -/

/-- The cap leaves as many violations as rows. -/
theorem upToCap_map {f : Row → Violation} (rows : List Row) :
    upToCap config (rows.map f) = (cut config.maxViolationsPerShape rows).1.map f := by
  unfold upToCap cut
  cases config.maxViolationsPerShape with
  | none => rfl
  | some n => exact List.map_take.symm

/-- It cuts violations off exactly if it cuts rows off. -/
theorem exceedsCap_map {f : Row → Violation} (rows : List Row) :
    exceedsCap config (rows.map f) = (cut config.maxViolationsPerShape rows).2 := by
  unfold exceedsCap cut
  cases config.maxViolationsPerShape with
  | none => rfl
  | some n => simp only [List.length_map]

/-- Cutting the findings of a shape is cutting the rows of its plan. -/
theorem cut_ofRows (node : NodeShape) (shape : Shape) (rows : List Row) :
    (Findings.ofRows node shape (rows, false)).cut config shape =
      .ofRows node shape (cut config.maxViolationsPerShape rows) := by
  unfold Findings.ofRows Findings.cut
  rw [upToCap_map, exceedsCap_map]

/-- Of a shape that is passed over there is nothing to cut. -/
theorem cut_skip (shape : Shape) : (Findings.skip 1).cut config shape = .skip 1 := by
  unfold Findings.cut Findings.skip upToCap exceedsCap
  cases config.maxViolationsPerShape with
  | none => rfl
  | some n => simp

/-- A cap leaves a violation where there is one. -/
theorem ends_cut (hcap : config.maxViolationsPerShape ≠ some 0) (shape : Shape)
    (found : Findings) : ends config (found.cut config shape) = ends config found := by
  unfold ends Findings.cut upToCap
  cases hn : config.maxViolationsPerShape with
  | none => rfl
  | some n =>
    have hpos : n.toNat ≠ 0 := fun h => hcap (hn.trans (congrArg some (UInt64.toNat_inj.1 h)))
    cases found.violations with
    | nil => simp
    | cons _ _ => simp [hpos]

/-- What is read under a cap is cut from what is read without: if everything can be read, then so
can the beginning. -/
theorem readUpTo_cut (cap : Option UInt64) (feed : RowFeed) :
    Except.Upto (fun read read' => read.2 = false ∧ read' = cut cap read.1)
      (readUpTo none feed) (readUpTo cap feed) := by
  intro read h
  have h : feed.toExcept.map (·, false) = .ok read := h
  cases hall : feed.toExcept with
  | error e => rw [hall] at h; cases h
  | ok rows =>
    rw [hall] at h
    cases h
    rw [Feed.eq_ofList_of_toExcept hall]
    exact ⟨_, readUpTo_ofList cap rows, rfl, rfl⟩

/-- What a plan comes to is cut from what it comes to without limits. -/
theorem evaluated_cut (node : NodeShape) (shape : Shape)
    (plan : Except PlanError (Option Plan)) :
    Except.Upto (fun full kept => full.cut config shape = kept)
      (evaluated config.unlimited node shape plan) (evaluated config node shape plan) := by
  cases plan with
  | error e => exact .error _ _
  | ok plan =>
    cases plan with
    | none => exact .pure (cut_skip shape)
    | some q =>
      refine (Except.Upto.refl _).bindEq fun feed => ?_
      refine ((readUpTo_cut _ feed).mapError _ _).bind fun read read' h => .pure ?_
      obtain ⟨rows, more⟩ := read
      obtain ⟨rfl, rfl⟩ := h
      exact cut_ofRows node shape rows

end Validator

/-! ## Steps of a pass -/

namespace Pass

variable {α β : Type} {f : α → β}

/-- Steps that come to results without touching the reports are compared by their results. -/
theorem Steadies.of_gives {step : Pass α} {step' : Pass β} {x : Except PassError α}
    {y : Except PassError β} (h : step.Gives x) (h' : step'.Gives y)
    (hxy : Except.Upto (fun a b => f a = b) x y) : Steadies f step step' := by
  intro before before' a after hrun
  obtain ⟨_, hx⟩ := h before
  obtain ⟨b, rfl, rfl⟩ := hxy a (congrArg Prod.fst (hx.symm.trans hrun))
  exact h' before'

/-- A step that is not taken does not fail. -/
theorem Steadies.drop {γ : Type} {step : Pass γ} {g : γ → α} {b : β} (h : ∀ c, f (g c) = b) :
    Steadies f (do return g (← step)) (Pure.pure b) := by
  have hdrop : Steadies (fun _ => ()) step (Pure.pure ()) := fun _ before' _ _ _ => ⟨before', rfl⟩
  have hbind : Steadies f (step >>= fun c => Pure.pure (g c))
      (Pure.pure () >>= fun _ => Pure.pure b) := hdrop.bind fun c => .pure (h c)
  exact hbind

/-- If every step ensures its condition, then one after the other they ensure all of them. -/
theorem ensures_mapM {γ : Type} {f : γ → Pass α} {P : γ → α → Prop} (h : ∀ c, (f c).Ensures (P c)) :
    ∀ items : List γ, (items.mapM f).Ensures (List.Forall₂ P items)
  | [] => .pure .nil
  | c :: items => by
    rw [List.mapM_cons]
    exact (h c).bind fun a ha => (ensures_mapM h items).bind fun as has => .pure (.cons ha has)

end Pass

open Pass (Steadies Ensures)

namespace Validator

variable {config : Config} {ctx ctx' : Context}

/-! ## Going through the shapes -/

theorem handled_nil : handled config [] = [] := by
  unfold handled
  simp

/-- What follows a shape is handled unless its findings end the pass. -/
theorem handled_cons (e : Shape × Findings) (found : List (Shape × Findings)) :
    handled config (e :: found) = e :: if ends config e.2 then [] else handled config found := by
  unfold handled ends
  cases config.failFast with
  | false => rfl
  | true =>
    simp only [if_true, Bool.true_and, List.findIdx_cons, List.take_succ_cons]
    cases e.2.violations.isEmpty <;> rfl

/-- Does a shape with these findings end the pass? -/
def stops (config : Config) (found : List (Shape × Findings)) : Bool :=
  found.any fun e => ends config e.2

/-- A pass stops among shapes if it stops at the first, or among the rest. -/
theorem stops_cons (e : Shape × Findings) (found : List (Shape × Findings)) :
    stops config (e :: found) = (ends config e.2 || stops config found) := List.any_cons

/-- What follows several shapes is handled unless the pass stops among them. -/
theorem handled_append (as bs : List (Shape × Findings)) :
    handled config (as ++ bs) =
      handled config as ++ if stops config as then [] else handled config bs := by
  induction as with
  | nil => rw [handled_nil]; rfl
  | cons e as ih =>
    rw [List.cons_append, handled_cons, handled_cons, ih, stops_cons]
    cases ends config e.2 <;> rfl

/-- What the limits leave of every shape, one after the other. -/
def cutEach (config : Config) (found : List (Shape × Findings)) : List Findings :=
  found.map fun e => e.2.cut config e.1

/-- What a pass with limits finds where without limits there is this. -/
def limited (config : Config) (found : List (Shape × Findings)) : Findings :=
  .concat (cutEach config (handled config found))

theorem limited_nil : limited config [] = {} := by
  rw [limited, handled_nil]
  rfl

/-- What is found of several shapes is what is found of the first, and of the rest if the pass goes
on. -/
theorem limited_cons (e : Shape × Findings) (found : List (Shape × Findings)) :
    limited config (e :: found) =
      if ends config e.2 then e.2.cut config e.1
      else (e.2.cut config e.1).append (limited config found) := by
  unfold limited
  rw [handled_cons]
  cases ends config e.2 with
  | true => exact (e.2.cut config e.1).append_nil
  | false => rfl

/-- The same for two stretches of shapes. -/
theorem limited_append (as bs : List (Shape × Findings)) :
    limited config (as ++ bs) =
      if stops config as then limited config as
      else (limited config as).append (limited config bs) := by
  unfold limited
  rw [handled_append]
  cases stops config as with
  | true => simp only [if_true, List.append_nil]
  | false =>
    simp only [Bool.false_eq_true, if_false, cutEach, List.map_append, Findings.concat_append]

/-- What is passed over is counted, and does not end the pass. -/
theorem limited_skips (found : List (Shape × Findings)) (shapes : List Shape) :
    limited config (shapes.zip (shapes.map fun _ => .skip 1) ++ found) =
      (Findings.skip shapes.length).append (limited config found) := by
  have hends : ends config (.skip 1) = false := Bool.and_false _
  induction shapes with
  | nil => exact (limited config found).nil_append.symm
  | cons s shapes ih =>
    have hskip : (Findings.skip 1).append (.skip shapes.length) = .skip (s :: shapes).length := by
      rw [List.length_cons, Nat.add_comm]
      rfl
    rw [List.map_cons, List.zip_cons_cons, List.cons_append, limited_cons, hends, cut_skip, ih,
      ← hskip, Findings.append_assoc]
    rfl

/-- The findings of a node shape belong to its shapes, in their order. -/
theorem shapewise_cons (node : NodeShape) (nodes : List NodeShape) (row : List Findings)
    (parts : List (List Findings)) :
    shapewise (node :: nodes) (row :: parts) = node.shapes.zip row ++ shapewise nodes parts := rfl

section Steps

variable (hcap : config.maxViolationsPerShape ≠ some 0) (hpass : ctx'.SamePass ctx)

include hpass in
/-- A shape is evaluated as without limits, and its findings are cut. -/
theorem steadies_evaluate_limited (node : NodeShape) (shape : Shape) :
    Steadies (Findings.cut config shape) (evaluate config.unlimited ctx' node shape)
      (evaluate config ctx node shape) := by
  have hplan : shape.unshared ctx' (.root node) none false =
      shape.unshared ctx (.root node) none false :=
    shape.unshared_eq_of_samePass hpass (.root node) false Unshared.ready_none
  refine .of_gives (evaluate_gives _ _ node shape) (evaluate_gives _ _ node shape) ?_
  rw [hplan]
  exact evaluated_cut node shape _

include hpass in
/-- It is passed over as without limits. -/
theorem steadies_examine_limited (node : NodeShape) (shape : Shape) :
    Steadies (Findings.cut config shape) (examine config.unlimited ctx' node shape)
      (examine config ctx node shape) := by
  have hevaluate : Steadies (Findings.cut config shape) _ _ :=
    steadies_evaluate_limited hpass node shape
  rw [examine_constant, examine_constant, hpass.restriction]
  cases ctx.restriction with
  | none => exact hevaluate
  | some delta =>
    refine (Steadies.ofError (.refl _)).bind fun touched => ?_
    cases touched with
    | true => exact hevaluate
    | false => exact .pure (cut_skip shape)

include hcap hpass

/-- The shapes of a node shape are handled up to the first that ends the pass. -/
theorem steadies_examineAll_limited (node : NodeShape) : ∀ shapes : List Shape,
    Steadies (fun row => (limited config (shapes.zip row), !stops config (shapes.zip row)))
      (shapes.mapM (examine config.unlimited ctx' node)) (examineAll config ctx node shapes)
  | [] => .pure (Prod.ext limited_nil rfl)
  | shape :: rest => by
    rw [List.mapM_cons]
    refine (steadies_examine_limited hpass node shape).bind fun found => ?_
    show Steadies _ _ (if ends config (found.cut config shape) then _ else _)
    rw [ends_cut hcap]
    cases hends : ends config found with
    | true =>
      -- the shapes that follow are not looked at
      refine .drop fun row => ?_
      rw [List.zip_cons_cons, limited_cons, stops_cons, hends]
      rfl
    | false =>
      refine (steadies_examineAll_limited node rest).bind fun row => .pure ?_
      rw [List.zip_cons_cons, limited_cons, stops_cons, hends]
      rfl

/-- The node shapes are handled up to the first with a shape that ends the pass. -/
theorem steadies_examineNodes_limited : ∀ nodes : List NodeShape,
    Steadies (fun parts => limited config (shapewise nodes parts))
      (sections config.unlimited ctx' nodes) (examineNodes config ctx nodes)
  | [] => .pure limited_nil
  | node :: nodes => by
    have hnodes := steadies_examineNodes_limited nodes
    -- shapes that are passed over count, but cannot end the pass
    have hskipped : Steadies (fun parts => limited config (shapewise (node :: nodes) parts))
        (do return (node.shapes.map fun _ => Findings.skip 1) ::
          (← sections config.unlimited ctx' nodes))
        (do return (Findings.skip node.shapes.length).append (← examineNodes config ctx nodes)) :=
      hnodes.bind fun parts => .pure (limited_skips (shapewise nodes parts) node.shapes)
    have htouched : nodeTouched ctx' node = nodeTouched ctx node := by
      rw [nodeTouched_constant, nodeTouched_constant, hpass.restriction]
    rw [sections_cons, nodeSections, examineNodes_cons, htouched]
    cases node.deactivated with
    | true => exact hskipped
    | false =>
      simp only [Bool.false_eq_true, if_false, bind_assoc]
      refine (Steadies.ofError (.refl _)).bind fun touched => ?_
      cases touched with
      | false => exact hskipped
      | true =>
        refine (steadies_examineAll_limited hcap hpass node node.shapes).bind fun row => ?_
        cases hstops : stops config (node.shapes.zip row) with
        | true =>
          refine .drop fun parts => ?_
          rw [shapewise_cons, limited_append, hstops]
          rfl
        | false =>
          refine hnodes.bind fun parts => .pure ?_
          rw [shapewise_cons, limited_append, hstops]
          rfl

end Steps

/-! ## What a pass finds about a shape -/

/-- What is found of one shape counts one shape. -/
theorem ensures_evaluate_single (node : NodeShape) (shape : Shape) :
    (evaluate config ctx node shape).Ensures Findings.Single := by
  refine Ensures.after fun planned => ?_
  obtain ⟨plan, splitters⟩ := planned
  cases plan with
  | none => exact .pure .skip
  | some plan =>
    exact Ensures.after fun feed => Ensures.after fun read => .pure ⟨rfl, fun h => absurd rfl h⟩

/-- So it does where the shape may be passed over. -/
theorem ensures_examine_single (node : NodeShape) (shape : Shape) :
    (examine config ctx node shape).Ensures Findings.Single :=
  ensures_examine_of (ensures_evaluate_single node shape) .skip

/-- So it does for every shape of a node shape. -/
theorem ensures_nodeSections_single (node : NodeShape) :
    (nodeSections config ctx node).Ensures
      (List.Forall₂ (fun _ found => found.Single) node.shapes) := by
  have hskips : List.Forall₂ (fun _ found => Findings.Single found) node.shapes
      (node.shapes.map fun _ => .skip 1) :=
    List.forall₂_map_right_iff.2 (List.forall₂_same.2 fun _ _ => .skip)
  unfold nodeSections
  cases node.deactivated with
  | true => exact .pure hskips
  | false =>
    refine Ensures.after fun touched => ?_
    cases touched with
    | true => exact Pass.ensures_mapM (ensures_examine_single node) node.shapes
    | false => exact .pure hskips

/-- Each shape has findings of its own. -/
abbrev SingleEach : List NodeShape → List (List Findings) → Prop :=
  List.Forall₂ fun node row => List.Forall₂ (fun _ found => Findings.Single found) node.shapes row

/-- So it does for every shape of a pass. -/
theorem ensures_sections_single (nodes : List NodeShape) :
    (sections config ctx nodes).Ensures (SingleEach nodes) :=
  Pass.ensures_mapM ensures_nodeSections_single nodes

/-- If each shape has findings of its own, then shape by shape there is all that was found. -/
theorem lists_of_sections {nodes : List NodeShape} {parts : List (List Findings)}
    (h : SingleEach nodes parts) :
    (shapewise nodes parts).map Prod.fst = nodes.flatMap NodeShape.shapes ∧
      (shapewise nodes parts).map Prod.snd = parts.flatten ∧
      ∀ e ∈ shapewise nodes parts, e.2.Single := by
  induction h with
  | nil => exact ⟨rfl, rfl, nofun⟩
  | @cons node row nodes parts hrow _ ih =>
    obtain ⟨hshapes, hfound, hsingle⟩ := ih
    have hlength := hrow.length_eq
    rw [shapewise_cons, List.map_append, List.map_append, hshapes, hfound,
      List.map_fst_zip (Nat.le_of_eq hlength), List.map_snd_zip (Nat.le_of_eq hlength.symm)]
    refine ⟨rfl, rfl, fun e he => ?_⟩
    rcases List.mem_append.1 he with he | he
    · exact List.forall₂_zip hrow he
    · exact hsingle e he

/-! ## What is reported -/

/-- The violations of cut findings are those up to the cap, shape by shape. -/
theorem violations_cutEach (found : List (Shape × Findings)) :
    (Findings.concat (cutEach config found)).violations =
      found.flatMap fun e => upToCap config e.2.violations := by
  rw [Findings.violations_concat, cutEach, List.flatMap_map]
  rfl

/-- The shapes that are marked as cut are those with more violations than the cap. -/
theorem truncated_cutEach (found : List (Shape × Findings)) :
    (Findings.concat (cutEach config found)).truncated =
      (found.filter fun e => exceedsCap config e.2.violations).map fun e => e.1.id := by
  induction found with
  | nil => rfl
  | cons e found ih =>
    show (if exceedsCap config e.2.violations then [e.1.id] else []) ++
      (Findings.concat (cutEach config found)).truncated = _
    rw [ih, List.filter_cons]
    cases exceedsCap config e.2.violations <;> rfl

/-- Every shape is counted once, as evaluated or as skipped. -/
theorem counted_cutEach {found : List (Shape × Findings)} (h : ∀ e ∈ found, e.2.Single) :
    (Findings.concat (cutEach config found)).evaluated +
      (Findings.concat (cutEach config found)).skipped = found.length := by
  induction found with
  | nil => rfl
  | cons e found ih =>
    obtain ⟨he, hfound⟩ := List.forall_mem_cons.1 h
    show e.2.evaluated + (Findings.concat (cutEach config found)).evaluated +
      (e.2.skipped + (Findings.concat (cutEach config found)).skipped) = found.length + 1
    rw [Nat.add_add_add_comm, ih hfound, he.counted, Nat.add_comm]

/-- Only shapes of the pass are handled. -/
theorem mem_of_mem_handled {found : List (Shape × Findings)} {e : Shape × Findings}
    (h : e ∈ handled config found) : e ∈ found := by
  unfold handled at h
  split at h
  · exact List.mem_of_mem_take h
  · exact h

/-- Without `failFast` all of them are. -/
theorem handled_eq_self (hf : config.failFast = false) (found : List (Shape × Findings)) :
    handled config found = found := by
  rw [handled, hf]
  rfl

/-- The pass reports what it finds. -/
theorem exists_report_of_run {v : Validator} {found : Findings} {plans : Array PlanReport}
    (h : (examineNodes v.config ctx v.shapes).run.run #[] = (.ok found, plans))
    (stamp : PassStamp) : ∃ report, (outcome (v.run ctx stamp)).1 = .ok report ∧
      report.violations = found.violations ∧ report.truncated = found.truncated ∧
      report.manifest.violations = report.violations.length ∧
      report.manifest.evaluated = found.evaluated ∧ report.manifest.skipped = found.skipped := by
  unfold outcome run
  rw [Pass.run_bind h]
  exact ⟨_, rfl, rfl, rfl, rfl, rfl, rfl⟩

/-- Where the sections of the unlimited pass can be read, so can what the limits leave of them. -/
theorem exists_cuts {v : Validator} (hcap : v.config.maxViolationsPerShape ≠ some 0)
    (hpass : ctx'.SamePass ctx) {stamp : PassStamp} {full : Report}
    (h : (outcome (v.unlimited.run ctx' stamp)).1 = .ok full) :
    ∃ found report, full.Lists v.unlimited ctx' found ∧
      (outcome (v.run ctx stamp)).1 = .ok report ∧ report.Cuts v found := by
  have hrun : (v.unlimited.run ctx' stamp).run.run #[] = (.ok full, _) := Prod.ext h rfl
  rw [run, examineNodes_eq rfl, bind_assoc] at hrun
  obtain ⟨parts, plans, hsections, hfull⟩ := Pass.exists_of_run_bind hrun
  obtain ⟨hshapes, hfound, hsingle⟩ :=
    lists_of_sections (ensures_sections_single v.shapes #[] parts plans hsections)
  have hviolations : full.violations = (Findings.concat parts.flatten).violations := by
    cases hfull
    rfl
  -- what the limits leave is a function of the sections of the unlimited pass
  obtain ⟨plans', hexamined⟩ :=
    steadies_examineNodes_limited hcap hpass v.shapes #[] #[] parts plans hsections
  obtain ⟨report, hreport, hkept, htruncated, hcounted, hevaluated, hskipped⟩ :=
    exists_report_of_run hexamined stamp
  refine ⟨shapewise v.shapes parts, report, ⟨⟨parts, plans, hsections, rfl⟩, hshapes, ?_,
    fun e he => (hsingle e he).skipped⟩, hreport, ?_⟩
  · rw [hviolations, Findings.violations_concat, ← hfound, List.flatMap_map]
  · have hhandled : report.manifest.evaluated + report.manifest.skipped =
        (handled v.config (shapewise v.shapes parts)).length := by
      rw [hevaluated, hskipped]
      exact counted_cutEach fun e he => hsingle e (mem_of_mem_handled he)
    exact {
      violations := hkept.trans (violations_cutEach _)
      truncated := htruncated.trans (truncated_cutEach _)
      counted := hcounted
      handled := hhandled
      everything := fun hf => by
        rw [hhandled, handled_eq_self hf, ← hshapes, List.length_map] }

/-- A pass without limits that ends with a report finds certain violations about each shape, one
shape after the other. With a cap that is not zero and with or without `failFast`, the same pass
ends with a report too, of what the limits leave of that. -/
theorem limits_only_cut {v : Validator} (hcap : v.config.maxViolationsPerShape ≠ some 0)
    (stamp : PassStamp) :
    (∀ (tx : Transaction) (full : Report),
      (outcome (v.unlimited.validate tx stamp)).1 = .ok full →
      ∃ found report, full.Lists v.unlimited (.incremental tx v.unlimited.config) found ∧
        (outcome (v.validate tx stamp)).1 = .ok report ∧ report.Cuts v found) ∧
    ∀ (source : Source) (full : Report),
      (outcome (v.unlimited.validateAll source stamp)).1 = .ok full →
      ∃ found report, full.Lists v.unlimited (.bulk source v.unlimited.config) found ∧
        (outcome (v.validateAll source stamp)).1 = .ok report ∧ report.Cuts v found := by
  refine ⟨fun tx full h => ?_, fun source full h => ?_⟩
  · have hpass : (Context.incremental tx v.unlimited.config).SamePass
        (.incremental tx v.config) := ⟨rfl, rfl, rfl⟩
    exact exists_cuts hcap hpass h
  · have hpass : (Context.bulk source v.unlimited.config).SamePass
        (.bulk source v.config) := ⟨rfl, rfl, rfl⟩
    exact exists_cuts hcap hpass h

/-- Three shapes for every subject. Of the values 5, 6 and 7, the first allows all, the second only
one, and the third all but one. -/
def fewValuesOnly : Validator where
  shapes := [
    { id := ⟨1⟩
      targets := [.subjectsOf (.iri "p")]
      shapes := [among ⟨2⟩ [5, 6, 7], among ⟨3⟩ [5]] },
    { id := ⟨4⟩
      targets := [.subjectsOf (.iri "p")]
      shapes := [among ⟨5⟩ [5, 6]] }]
  config := { failFast := true, maxViolationsPerShape := some 1 }
  shapesHash := .fill 0
where
  /-- The values are among these. -/
  among (id : ShapeId) (numbers : List Int64) : Shape :=
    .constraint { id := id, path := some (.predicate (.iri "p")) } (.oneOf (numbers.map Term.int))

/-- The full report lists three violations. The pass that fails fast stops at the second shape and
tells one of its two. -/
theorem limits_only_cut_few :
    let v := fewValuesOnly
    let values : Store := .ofList ([5, 6, 7].map fun n => ⟨.iri "a", .iri "p", .int n⟩)
    let tx : Transaction := .initial values
    let source : Source := .ofStore values
    let told (pass : Pass Report) : Option (List (Option Term) × List ShapeId × Nat) :=
      (outcome pass).1.toOption.map fun report =>
        (report.violations.map Violation.value, report.truncated, report.manifest.evaluated)
    (∃ full found report, (outcome (v.unlimited.validate tx)).1 = .ok full ∧
      full.Lists v.unlimited (.incremental tx v.unlimited.config) found ∧
      (outcome (v.validate tx)).1 = .ok report ∧ report.Cuts v found) ∧
    (∃ full found report, (outcome (v.unlimited.validateAll source)).1 = .ok full ∧
      full.Lists v.unlimited (.bulk source v.unlimited.config) found ∧
      (outcome (v.validateAll source)).1 = .ok report ∧ report.Cuts v found) ∧
    told (v.unlimited.validate tx) =
      some ([some (.int 6), some (.int 7), some (.int 7)], [], 3) ∧
    told (v.validate tx) = some ([some (.int 6)], [⟨3⟩], 2) ∧
    told (v.unlimited.validateAll source) =
      some ([some (.int 6), some (.int 7), some (.int 7)], [], 3) ∧
    told (v.validateAll source) = some ([some (.int 6)], [⟨3⟩], 2) := by
  intro v values tx source told
  have hcommit : told (v.unlimited.validate tx) =
      some ([some (.int 6), some (.int 7), some (.int 7)], [], 3) := by decide +kernel
  have hbulk : told (v.unlimited.validateAll source) =
      some ([some (.int 6), some (.int 7), some (.int 7)], [], 3) := by decide +kernel
  obtain ⟨full, hfull, -⟩ := exists_report_of_map hcommit
  obtain ⟨full', hfull', -⟩ := exists_report_of_map hbulk
  have hcap : v.config.maxViolationsPerShape ≠ some 0 := by decide
  obtain ⟨hcuts, hcuts'⟩ := limits_only_cut hcap {}
  obtain ⟨found, report, hfound⟩ := hcuts tx full hfull
  obtain ⟨found', report', hfound'⟩ := hcuts' source full' hfull'
  exact ⟨⟨full, found, report, hfull, hfound⟩, ⟨full', found', report', hfull', hfound'⟩, hcommit,
    by decide +kernel, hbulk, by decide +kernel⟩

end Validator

end GraphShapes
