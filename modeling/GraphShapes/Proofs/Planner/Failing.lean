import GraphShapes.Planner
import GraphShapes.Proofs.Planner.Layout
import GraphShapes.Proofs.Planner.Steady
import GraphShapes.Proofs.Shape.Tree

/-!
# Planning over sources that fail

Planning asks its sources no more than what the delta touches; everything else it writes into the
plan. So if a shape is planned over sources that may fail, it is planned in the same way over the
steady sources, and the two plans differ in their sources only (`Shape.plan_steady`).

`Planning.Steadies` says this of a planning step, whatever was allotted before it. Its rules follow
the `do` blocks of the planner.
-/

namespace GraphShapes

namespace Planning

variable {α β γ δ : Type} {f : α → β} {g : γ → δ}

/-- If the first step succeeds, then so does the second, with the result as it is over steady
sources and with the same splitters, but for the sources in them. -/
def Steadies (f : α → β) (step : Planning α) (step' : Planning β) : Prop :=
  ∀ draft draft' : Draft, draft'.splitters = draft.splitters.map Plan.steady →
    ∀ (a : α) (later : Draft), step.run.run draft = (.ok a, later) →
      ∃ later', step'.run.run draft' = (.ok (f a), later') ∧
        later'.splitters = later.splitters.map Plan.steady

theorem Steadies.pure {a : α} {b : β} (h : f a = b) : Steadies f (Pure.pure a) (Pure.pure b) := by
  subst h
  rintro draft draft' hdraft a' later ⟨⟩
  exact ⟨draft', rfl, hdraft⟩

/-- A step that fails is planned like anything. -/
theorem Steadies.throw (e : PlanError) (step' : Planning β) :
    Steadies f (MonadExcept.throw e) step' := by
  rintro draft draft' - a later ⟨⟩

/-- One step after the other, as in a `do` block: the second works on what the first comes to. -/
theorem Steadies.bind {step : Planning α} {step' : Planning β} {k : α → Planning γ}
    {k' : β → Planning δ} (h : Steadies f step step') (hk : ∀ a, Steadies g (k a) (k' (f a))) :
    Steadies g (step >>= k) (step' >>= k') := by
  intro draft draft' hdraft c later hrun
  have hbind : (step >>= k).run.run draft =
      match step.run.run draft with | (a, draft) => ExceptT.bindCont k a draft := rfl
  have hbind' : (step' >>= k').run.run draft' =
      match step'.run.run draft' with | (b, draft) => ExceptT.bindCont k' b draft := rfl
  rw [hbind] at hrun
  cases hstep : step.run.run draft with
  | mk result between =>
    rw [hstep] at hrun
    cases result with
    | error e => cases hrun
    | ok a =>
      obtain ⟨between', hstep', hbetween⟩ := h draft draft' hdraft a between hstep
      rw [hbind', hstep']
      exact hk a between between' hbetween c later hrun

/-- After a failure it does not matter what would have followed. -/
theorem Steadies.throwBind (e : PlanError) {k : α → Planning γ} (step' : Planning δ) :
    Steadies g (MonadExcept.throw e >>= k) step' := by
  rintro draft draft' - a later ⟨⟩

/-- A question to the sources is answered alike, or refused. -/
theorem Steadies.ofError {x y : Except Error α} (h : Except.Upto Eq x y) :
    Steadies id (ofError x) (ofError y) := by
  cases x with
  | error e => exact .throw _ _
  | ok a =>
    obtain ⟨_, rfl, rfl⟩ := h a rfl
    exact .pure rfl

/-- Over steady sources the same number is allotted, to the steady supply. -/
theorem steadies_share (supply : Plan) : Steadies id (share supply) (share supply.steady) := by
  rintro draft draft' hdraft a later ⟨⟩
  have hsize : draft.splitters.size = draft'.splitters.size := by
    rw [hdraft, Array.size_map]
  refine ⟨{ draft' with splitters := draft'.splitters.push supply.steady }, ?_, ?_⟩
  · rw [hsize]
    rfl
  · rw [hdraft]
    exact Array.map_push.symm

/-- Inputs are refused by their layouts, which do not depend on the sources. -/
theorem steadies_union (ps : List Plan) :
    Steadies Plan.steady (ofOp (Plan.union? ps)) (ofOp (Plan.union? (ps.map Plan.steady))) := by
  cases hunion : Plan.union? ps with
  | error e => exact .throw _ _
  | ok p =>
    rw [Plan.union?_steady hunion]
    exact .pure rfl

end Planning

open Planning (Steadies)

/-- The provider of the same targets from steady sources. -/
def Provider.steady : Provider → Provider
  | splitter id layout => splitter id layout
  | external answer => external (answer.map Plan.steady)

/-- A provider hands out the same plan, over steady sources. -/
theorem Provider.steadies_request (provider : Provider) :
    Steadies Plan.steady provider.request provider.steady.request := by
  cases provider with
  | splitter id layout => exact .pure rfl
  | external answer =>
    rintro draft draft' hdraft a later hrun
    cases answer with
    | error e => cases hrun
    | ok plan =>
      cases hrun
      exact ⟨_, rfl, hdraft⟩

/-- The pass over steady sources. -/
def Context.steady (ctx : Context) : Context :=
  { ctx with source := ctx.source.steady, delta := ctx.delta.map Delta.steady }

namespace Context

variable (ctx : Context)

/-- Steady sources answer in the same way under all conditions. -/
@[simp] theorem steady_during (c : Conditions) : (ctx.during c).steady = ctx.steady := by
  obtain ⟨source, delta, baseEmpty, config⟩ := ctx
  cases delta <;> rfl

/-- A pass over steady sources is restricted to the steady delta. -/
theorem restriction_steady : ctx.steady.restriction = ctx.restriction.map Delta.steady := by
  unfold restriction
  show (if ctx.config.validateAll then none else ctx.delta.map Delta.steady) = _
  cases ctx.config.validateAll <;> rfl

/-- The scan for targets asks nothing while it is planned. -/
theorem scan_steady (frame : Frame) : (ctx.scan frame).steady = ctx.steady.scan frame := by
  unfold scan targetMode
  rw [restriction_steady]
  cases ctx.restriction <;> rfl

/-- A report changes neither the splitters nor what the step comes to. -/
theorem steadies_report (shape : Shape) (p p' : Plan) :
    Steadies id (Planning.report ctx shape p) (Planning.report ctx.steady shape p') := by
  unfold Planning.report
  show Steadies id _ (if ctx.config.printPlans then _ else _)
  cases ctx.config.printPlans with
  | true =>
    rintro draft draft' hdraft a later ⟨⟩
    exact ⟨_, rfl, hdraft⟩
  | false => exact .pure rfl

end Context

/-! ## Constraints -/

section Constraint

variable (ctx : Context) (frame : Frame) (targets : Option Provider)

/-- The targets that a leaf looks at are planned alike. -/
theorem Context.steadies_focus : Steadies Plan.steady (ctx.focus frame targets)
    (ctx.steady.focus frame (targets.map Provider.steady)) := by
  cases targets with
  | none => exact .pure (ctx.scan_steady frame)
  | some provider => exact provider.steadies_request.bind fun _ => .pure rfl

/-- The violations of a constraint are planned alike. -/
theorem Constraint.steadies_violations (c : Constraint) :
    Steadies Plan.steady (c.violations ctx frame targets)
      (c.violations ctx.steady frame (targets.map Provider.steady)) := by
  refine (ctx.steadies_focus frame targets).bind fun focus => ?_
  by_cases hv : c.isValueLevel
  · simp only [hv, if_true]
    exact .pure rfl
  · simp only [hv]
    refine (Planning.steadies_share focus).bind fun split => .pure ?_
    rw [Plan.layout_steady]
    rfl

/-- The targets without a violation are planned alike. -/
theorem Constraint.steadies_satisfactions (c : Constraint) :
    Steadies Plan.steady (c.satisfactions ctx frame targets)
      (c.satisfactions ctx.steady frame (targets.map Provider.steady)) := by
  refine (ctx.steadies_focus frame targets).bind fun focus => ?_
  refine (Planning.steadies_share focus).bind fun split => ?_
  rw [Plan.layout_steady]
  exact (c.steadies_violations ctx frame (some (.splitter split focus.layout))).bind fun _ =>
    .pure rfl

/-- A constraint is planned alike, negated or not. -/
theorem Constraint.steadies_plan (id : ShapeId) (c : Constraint) (negate : Bool) :
    Steadies Plan.steady (c.plan ctx frame id targets negate)
      (c.plan ctx.steady frame id (targets.map Provider.steady) negate) := by
  cases negate with
  | true => exact (c.steadies_satisfactions ctx frame targets).bind fun _ => .pure rfl
  | false => exact (c.steadies_violations ctx frame targets).bind fun _ => .pure rfl

end Constraint

/-! ## Conjunctions and disjunctions -/

/-- The member is planned in the same way over steady sources, and asks the same questions. -/
structure Member.Steadies (m m' : Member) : Prop where
  plan : ∀ (frame : Frame) (targets : Option Provider), Planning.Steadies (Option.map Plan.steady)
    (m.plan frame targets) (m'.plan frame (targets.map Provider.steady))
  hasOwnPath : m'.hasOwnPath = m.hasOwnPath
  touched : ∀ (frame : Frame) (delta : Delta),
    Except.Upto Eq (m.touched frame delta) (m'.touched frame delta.steady)

namespace Member

/-- Members that are planned in the same way as their counterparts. -/
abbrev AllSteady : List Member → List Member → Prop := List.Forall₂ Member.Steadies

/-- Branches of such members. -/
abbrev BranchesSteady : List (List Member) → List (List Member) → Prop := List.Forall₂ AllSteady

variable {ctx : Context} {frame : Frame} {targets : Option Provider} {m m' : Member}
  {ms ms' : List Member} {bs bs' : List (List Member)}

/-- The layout in which plans are combined does not depend on their sources. -/
theorem commonLayout_steady (ps : List Plan) (ownPath : Bool) :
    commonLayout (ps.map Plan.steady) ownPath = commonLayout ps ownPath := by
  have hlayouts : (ps.map Plan.steady).map Plan.layout = ps.map Plan.layout := by simp
  unfold commonLayout
  rw [hlayouts]

/-- Nor does it depend on them how the inputs of a union are cut. -/
theorem unionInputs_steady (ps : List Plan) (ownPath : Bool) :
    unionInputs (ps.map Plan.steady) ownPath = (unionInputs ps ownPath).map Plan.steady := by
  unfold unionInputs
  rw [commonLayout_steady]
  cases commonLayout ps ownPath with
  | tripleBased => rfl
  | aggregated =>
    rw [List.map_map, List.map_map]
    rfl

/-- Whether the delta bears on a member is asked of the sources; if they answer, the answer is that
of the steady ones. -/
theorem steadies_planTouched (h : m.Steadies m') :
    Planning.Steadies (Option.map Plan.steady) (m.planTouched ctx frame)
      (m'.planTouched ctx.steady frame) := by
  unfold planTouched
  rw [ctx.restriction_steady]
  cases ctx.restriction with
  | none => exact h.plan frame none
  | some delta =>
    refine (Planning.Steadies.ofError (h.touched frame delta)).bind fun touched => ?_
    cases touched with
    | false => exact .pure rfl
    | true => exact h.plan frame none

section Each

variable {plan plan' : Member → Planning (Option Plan)}
  (hplan : ∀ {m m' : Member}, m.Steadies m' →
    Planning.Steadies (Option.map Plan.steady) (plan m) (plan' m'))
include hplan

/-- Planning members one by one, by induction over both lists. -/
theorem steadies_planEach (h : AllSteady ms ms') :
    Planning.Steadies (fun r => (r.1.map Plan.steady, r.2)) (planEach frame plan ms)
      (planEach frame plan' ms') := by
  induction h with
  | nil => exact .pure rfl
  | cons hm _ ih =>
    refine (hplan hm).bind fun p => ?_
    cases p with
    | none => exact ih
    | some p =>
      refine ih.bind fun r => .pure ?_
      rw [hm.hasOwnPath]
      rfl

/-- The union of what the members are planned to. -/
theorem steadies_unite (h : AllSteady ms ms') :
    Planning.Steadies (Option.map Plan.steady) (unite frame plan ms) (unite frame plan' ms') := by
  refine (steadies_planEach hplan h).bind fun r => ?_
  obtain ⟨ps, own⟩ := r
  cases ps with
  | nil => exact .pure rfl
  | cons p ps =>
    show Planning.Steadies _ (Planning.ofOp (Plan.union? (unionInputs (p :: ps) own)) >>= _)
      (Planning.ofOp (Plan.union? (unionInputs ((p :: ps).map Plan.steady) own)) >>= _)
    rw [unionInputs_steady]
    exact (Planning.steadies_union _).bind fun _ => .pure rfl

end Each

/-- A conjunction is planned alike, for given targets or none. -/
theorem steadies_conjunction (h : AllSteady ms ms') :
    Planning.Steadies (Option.map Plan.steady) (conjunction ctx frame ms targets)
      (conjunction ctx.steady frame ms' (targets.map Provider.steady)) := by
  refine steadies_unite (fun hm => ?_) h
  cases targets with
  | none => exact steadies_planTouched hm
  | some provider => exact hm.plan frame (some provider)

/-- A branch is planned alike. -/
theorem steadies_branch (h : AllSteady ms ms') :
    Planning.Steadies (Option.map Plan.steady) (branch frame ms targets)
      (branch frame ms' (targets.map Provider.steady)) :=
  steadies_unite (fun hm => hm.plan frame targets) h

/-- The violators of every branch are planned alike. -/
theorem steadies_candidatesOf (h : BranchesSteady bs bs') :
    Planning.Steadies (List.map Plan.steady) (candidatesOf ctx frame bs)
      (candidatesOf ctx.steady frame bs') := by
  induction h with
  | nil => exact .pure rfl
  | cons hb _ ih =>
    have hplan : Planning.Steadies (Option.map Plan.steady) (conjunction ctx frame _ none)
        (conjunction ctx.steady frame _ none) := steadies_conjunction hb
    refine hplan.bind fun p => ?_
    cases p with
    | none => exact ih
    | some p => exact ih.bind fun _ => .pure rfl

/-- The candidates from steady sources. -/
def Candidates.steady : Candidates → Candidates
  | unrestricted => unrestricted
  | given provider => given provider.steady
  | absent => absent

/-- The candidates of a disjunction are chosen in the same way: the settings and whether there was
data decide, not the sources. -/
theorem steadies_candidates (h : BranchesSteady bs bs') :
    Planning.Steadies Candidates.steady (candidates ctx frame bs targets)
      (candidates ctx.steady frame bs' (targets.map Provider.steady)) := by
  have hconfig : ctx.steady.config = ctx.config := rfl
  have hempty : ctx.steady.baseEmpty = ctx.baseEmpty := rfl
  cases targets with
  | some provider =>
    rw [Option.map_some, candidates, candidates, hconfig]
    cases ctx.config.cacheSelectNodes with
    | true =>
      refine provider.steadies_request.bind fun plan => ?_
      refine (Planning.steadies_share plan).bind fun split => .pure ?_
      rw [Plan.layout_steady]
      rfl
    | false => exact .pure rfl
  | none =>
    rw [Option.map_none, candidates, candidates, hempty]
    cases ctx.baseEmpty with
    | true => exact .pure rfl
    | false =>
      refine (steadies_candidatesOf h).bind fun ps => ?_
      cases ps with
      | nil => exact .pure rfl
      | cons p ps =>
        refine (Planning.steadies_union (p :: ps)).bind fun union => ?_
        have hsteady : Plan.unique union.steady none = (Plan.unique union none).steady := rfl
        simp only [hsteady]
        refine (Planning.steadies_share (.unique union none)).bind fun split => .pure ?_
        rw [Plan.layout_steady]
        rfl

/-- Planning branches one by one. -/
theorem steadies_planBranches (h : BranchesSteady bs bs') :
    Planning.Steadies (List.map Plan.steady) (planBranches frame targets bs)
      (planBranches frame (targets.map Provider.steady) bs') := by
  induction h with
  | nil => exact .pure rfl
  | cons hb _ ih =>
    refine (steadies_branch hb).bind fun p => ?_
    cases p with
    | none => exact ih
    | some p => exact ih.bind fun _ => .pure rfl

/-- Whether a member sets its own path has nothing to do with sources. -/
theorem any_hasOwnPath_steady (path : Option Path) (h : AllSteady ms ms') :
    (ms.any fun m => m.hasOwnPath path) = ms'.any fun m => m.hasOwnPath path :=
  any_eq_of_forall₂ (h.imp fun _ _ hm => congrFun hm.hasOwnPath.symm path)

/-- The joins of an intersection have no sources of their own. -/
theorem intersection_steady (layout : Layout) (first : Plan) (rest : List Plan) :
    (intersection layout first rest).steady =
      intersection layout first.steady (rest.map Plan.steady) := by
  have hequals : ∀ (ps : List Plan) (acc : Plan),
      (ps.foldl (fun acc p => Plan.equalsJoin acc p true) acc).steady =
        (ps.map Plan.steady).foldl (fun acc p => Plan.equalsJoin acc p true) acc.steady := by
    intro ps
    induction ps with
    | nil => exact fun _ => rfl
    | cons p ps ih => exact fun acc => ih _
  have hinner : ∀ (ps : List Plan) (acc : Plan),
      (ps.foldl (fun acc p => Plan.innerJoin acc p.distinctTargets) acc).steady =
        (ps.map Plan.steady).foldl (fun acc p => Plan.innerJoin acc p.distinctTargets)
          acc.steady := by
    intro ps
    induction ps with
    | nil => exact fun _ => rfl
    | cons p ps ih => exact fun acc => ih _
  cases rest with
  | nil => cases layout <;> rfl
  | cons p ps =>
    cases layout with
    | tripleBased => exact hequals (p :: ps) first
    | aggregated => exact hinner (p :: ps) first.distinctTargets

/-- The intersection of what the branches are planned to. -/
theorem steadies_intersectBranches (h : BranchesSteady bs bs') :
    Planning.Steadies (Option.map Plan.steady) (intersectBranches frame bs targets)
      (intersectBranches frame bs' (targets.map Provider.steady)) := by
  have hown : (bs.any fun b => b.any fun m => m.hasOwnPath frame.path) =
      bs'.any fun b => b.any fun m => m.hasOwnPath frame.path :=
    any_eq_of_forall₂ (h.imp fun _ _ hb => any_hasOwnPath_steady frame.path hb)
  unfold intersectBranches
  rw [← hown]
  refine (steadies_planBranches h).bind fun ps => ?_
  cases ps with
  | nil => exact .pure rfl
  | cons first rest =>
    generalize (bs.any fun b => b.any fun m => m.hasOwnPath frame.path) = ownPath
    have hsteady : intersect (commonLayout (first :: rest) ownPath) first.steady
        (rest.map Plan.steady) = .ok (intersection (commonLayout (first :: rest) ownPath) first
          rest).steady := by
      rw [intersection_steady, ← commonLayout_steady]
      exact intersect_eq_ok
    have hlayout : commonLayout (first.steady :: rest.map Plan.steady) ownPath =
        commonLayout (first :: rest) ownPath := commonLayout_steady (first :: rest) ownPath
    simp only [List.map_cons, hlayout, intersect_eq_ok, hsteady]
    cases commonLayout (first :: rest) ownPath with
    | tripleBased => exact .pure rfl
    | aggregated => exact .pure rfl

variable (ctx frame targets) in
/-- Everything that a disjunction does but to forward a single member. -/
theorem steadies_candidates_bind (h : BranchesSteady bs bs') :
    Planning.Steadies (Option.map Plan.steady)
      (do
        match ← candidates ctx frame bs targets with
        | .absent => return none
        | .unrestricted => intersectBranches frame bs none
        | .given provider => intersectBranches frame bs (some provider))
      (do
        match ← candidates ctx.steady frame bs' (targets.map Provider.steady) with
        | .absent => return none
        | .unrestricted => intersectBranches frame bs' none
        | .given provider => intersectBranches frame bs' (some provider)) := by
  refine (steadies_candidates h).bind fun c => ?_
  cases c with
  | absent => exact .pure rfl
  | unrestricted =>
    have hall : Planning.Steadies (Option.map Plan.steady) (intersectBranches frame bs none)
        (intersectBranches frame bs' none) := steadies_intersectBranches h
    exact hall
  | given provider => exact steadies_intersectBranches h

/-- A disjunction is planned alike, also where a single member is forwarded. -/
theorem steadies_disjunction (h : BranchesSteady bs bs') :
    Planning.Steadies (Option.map Plan.steady) (disjunction ctx frame bs targets)
      (disjunction ctx.steady frame bs' (targets.map Provider.steady)) := by
  have hany : bs.any List.isEmpty = bs'.any List.isEmpty := by
    refine any_eq_of_forall₂ (h.imp fun b b' hb => ?_)
    cases hb <;> rfl
  have hempty : bs.isEmpty = bs'.isEmpty := by cases h <;> rfl
  unfold disjunction
  rw [hany, hempty]
  cases bs'.isEmpty || bs'.any List.isEmpty with
  | true => exact .throwBind _ _
  | false =>
    simp only [Bool.false_eq_true, if_false]
    have hrest := steadies_candidates_bind ctx frame targets h
    -- only a single branch with a single member is forwarded
    cases h with
    | nil => exact hrest
    | cons hb hbs =>
      cases hbs with
      | cons _ _ => cases hb with
        | nil => exact hrest
        | cons _ hms => cases hms <;> exact hrest
      | nil =>
        cases hb with
        | nil => exact hrest
        | cons hm hms =>
          cases hms with
          | nil => exact hm.plan frame targets
          | cons _ _ => exact hrest

/-- Members that are planned alike, each as a branch of its own. -/
theorem singletons_steady (h : AllSteady ms ms') :
    BranchesSteady (ms.map fun m => [m]) (ms'.map fun m => [m]) :=
  List.rel_map (fun _ _ hm => .cons hm .nil) h

/-- Whether the delta bears on some member is answered alike, or refused. -/
theorem anyTouched_upto (frame : Frame) (delta : Delta) (h : AllSteady ms ms') :
    Except.Upto Eq (negatedBranch.anyTouched frame delta ms)
      (negatedBranch.anyTouched frame delta.steady ms') := by
  induction h with
  | nil => exact .pure rfl
  | cons hm _ ih => exact (hm.touched frame delta).or ih

/-- The negation of a branch, as a member. -/
theorem negatedBranch_steady (h : AllSteady ms ms') :
    (negatedBranch ctx ms).Steadies (negatedBranch ctx.steady ms') where
  plan _ _ := steadies_disjunction (singletons_steady h)
  hasOwnPath := funext fun path => (any_hasOwnPath_steady path h).symm
  touched frame delta := anyTouched_upto frame delta h

end Member

/-! ## Shapes -/

namespace Shape

variable {ctx : Context}

/-- Tagging and reporting a plan. -/
theorem steadies_finish (shape : Shape) (p : Option Plan) :
    Planning.Steadies (Option.map Plan.steady) (finish ctx shape p)
      (finish ctx.steady shape (p.map Plan.steady)) := by
  cases p with
  | none => exact .pure rfl
  | some p => exact (ctx.steadies_report shape _ _).bind fun _ => .pure rfl

/-- Planned for whatever targets, negated or not, the shape is planned in the same way over steady
sources. -/
def PlansSteady (ctx : Context) (s : Shape) : Prop :=
  ∀ (frame : Frame) (targets : Option Provider) (negate : Bool),
    Planning.Steadies (Option.map Plan.steady) (s.plan ctx frame targets negate)
      (s.plan ctx.steady frame (targets.map Provider.steady) negate)

/-- The members of a conjunction, given that each of them is planned alike. -/
theorem members_steady (negate : Bool) : ∀ {ms : List Shape}, (∀ m ∈ ms, PlansSteady ctx m) →
    Member.AllSteady (members ctx negate ms) (members ctx.steady negate ms)
  | [], _ => .nil
  | m :: _, h =>
    have ⟨hm, hms⟩ := List.forall_mem_cons.1 h
    .cons ⟨fun frame targets => hm frame targets negate, rfl,
      fun frame delta => touched_upto delta m frame⟩ (members_steady negate hms)

/-- The members of all branches, given the same. -/
theorem branchMembers_steady (negate : Bool) : ∀ {bs : List (List Shape)},
    (∀ b ∈ bs, ∀ m ∈ b, PlansSteady ctx m) →
    Member.BranchesSteady (branchMembers ctx negate bs) (branchMembers ctx.steady negate bs)
  | [], _ => .nil
  | _ :: _, h =>
    have ⟨hb, hbs⟩ := List.forall_mem_cons.1 h
    .cons (members_steady negate hb) (branchMembers_steady negate hbs)

/-- The negated branches of a disjunction, given the same. -/
theorem negatedBranches_steady {bs : List (List Shape)}
    (h : ∀ b ∈ bs, ∀ m ∈ b, PlansSteady ctx m) :
    Member.AllSteady ((branchMembers ctx true bs).map (Member.negatedBranch ctx))
      ((branchMembers ctx.steady true bs).map (Member.negatedBranch ctx.steady)) :=
  List.rel_map (fun _ _ hb => Member.negatedBranch_steady hb) (branchMembers_steady true h)

/-- If a shape is planned, it is planned in the same way over steady sources. -/
theorem plan_steady (ctx : Context) (s : Shape) : PlansSteady ctx s := by
  induction s using tree_induction with
  | constraint h c =>
    intro frame targets negate
    unfold plan
    cases h.deactivated with
    | true => exact .pure rfl
    | false => exact (c.steadies_plan ctx _ targets h.id negate).bind fun _ => .pure rfl
  | conj h ms ih =>
    intro frame targets negate
    unfold plan
    cases h.deactivated with
    | true => exact .pure rfl
    | false =>
      cases ms.isEmpty with
      | true => exact .throwBind _ _
      | false =>
        cases negate with
        | true =>
          have hms := Member.singletons_steady (members_steady true ih)
          exact (Member.steadies_disjunction hms).bind fun p => steadies_finish _ p
        | false =>
          exact (Member.steadies_conjunction (members_steady false ih)).bind
            fun p => steadies_finish _ p
  | disj h bs ih =>
    intro frame targets negate
    unfold plan
    cases h.deactivated with
    | true => exact .pure rfl
    | false =>
      cases bs.isEmpty with
      | true => exact .throwBind _ _
      | false =>
        cases bs.any List.isEmpty with
        | true => exact .throwBind _ _
        | false =>
          cases negate with
          | true =>
            exact (Member.steadies_conjunction (negatedBranches_steady ih)).bind
              fun p => steadies_finish _ p
          | false =>
            exact (Member.steadies_disjunction (branchMembers_steady false ih)).bind
              fun p => steadies_finish _ p
  | neg h inner ih =>
    intro frame targets negate
    unfold plan
    cases h.deactivated with
    | true => exact .pure rfl
    | false => exact (ih _ targets (!negate)).bind fun p => steadies_finish _ p

end Shape

end GraphShapes
