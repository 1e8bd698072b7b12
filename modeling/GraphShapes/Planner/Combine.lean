import GraphShapes.Planner.Planning

/-!
# Conjunctions and disjunctions

A target violates a conjunction when it violates a member: the plans of the members are united.
It violates a disjunction when it violates every branch, each branch being a conjunction: the
plans of the branches are intersected. To keep the branches small, a disjunction first collects
its *candidates*, the targets that violate some branch, and plans every branch for these.

Rows keep their value and provenance as long as all plans that are combined have them and no
member sets a path of its own; otherwise only targets are combined. A member without a plan drops
out.
-/

namespace GraphShapes

/-- A part of a conjunction: what planning has to know of it. -/
structure Member where
  /-- Plans its violations; nothing if it is switched off. -/
  plan : Frame → Option Provider → Planning (Option Plan)
  /-- Does it set a path other than the one it would inherit? -/
  hasOwnPath : Option Path → Bool
  /-- Can a delta bear on it? -/
  touched : Frame → Delta → Except Error Bool

namespace Member

/-- The layout in which plans are combined. -/
def commonLayout (plans : List Plan) (ownPath : Bool) : Layout :=
  match Layout.reconcile (plans.map Plan.layout) with
  | some .tripleBased => if ownPath then .aggregated else .tripleBased
  | _ => .aggregated

/-- Plans a member unless the delta cannot bear on it. -/
def planTouched (ctx : Context) (frame : Frame) (m : Member) : Planning (Option Plan) :=
  match ctx.restriction with
  | none => m.plan frame none
  | some delta => do
    if ← Planning.ofError (m.touched frame delta) then m.plan frame none else return none

/-- The plans of the members that have one, and whether one of those members has its own path. -/
def planEach (frame : Frame) (plan : Member → Planning (Option Plan)) :
    List Member → Planning (List Plan × Bool)
  | [] => return ([], false)
  | m :: rest => do
    match ← plan m with
    | none => planEach frame plan rest
    | some p =>
      let (plans, ownPath) ← planEach frame plan rest
      return (p :: plans, m.hasOwnPath frame.path || ownPath)

/-- The union of the members' plans without repetitions. -/
def unite (frame : Frame) (plan : Member → Planning (Option Plan)) (members : List Member) :
    Planning (Option Plan) := do
  let (plans, ownPath) ← planEach frame plan members
  if plans.isEmpty then return none
  let inputs := match commonLayout plans ownPath with
    | .tripleBased => plans
    | .aggregated => plans.map fun p => p.trimTo 1
  return some (.unique (← Planning.ofOp (Plan.union? inputs)) none)

/-- Plans the violations of any member. Without given targets, members that the delta of the pass
cannot bear on are left out: they have no affected targets. -/
def conjunction (ctx : Context) (frame : Frame) (members : List Member)
    (targets : Option Provider) : Planning (Option Plan) :=
  unite frame (fun m => match targets with
    | none => m.planTouched ctx frame
    | some _ => m.plan frame targets) members

/-- Plans the violations of any member of a branch, whether or not a delta bears on it: a branch
that is left out would drop out of the intersection instead of emptying it. -/
def branch (frame : Frame) (members : List Member) (targets : Option Provider) :
    Planning (Option Plan) :=
  unite frame (fun m => m.plan frame targets) members

/-- The violators of some branch, each branch planned by itself. -/
def candidatesOf (ctx : Context) (frame : Frame) : List (List Member) → Planning (List Plan)
  | [] => return []
  | b :: rest => do
    match ← conjunction ctx frame b none with
    | none => candidatesOf ctx frame rest
    | some p => return p.trimTo 1 :: (← candidatesOf ctx frame rest)

/-- Where the branches of a disjunction get their targets from. -/
inductive Candidates where
  /-- From the selectors of the node shape. -/
  | unrestricted
  /-- From a provider. -/
  | given (provider : Provider)
  /-- There are none. -/
  | absent

/-- Chooses the candidates of a disjunction: the given targets, shared if the settings ask for
it; all targets if there was no data before the commit; otherwise the violators of some branch. -/
def candidates (ctx : Context) (frame : Frame) (branches : List (List Member)) :
    Option Provider → Planning Candidates
  | some provider => do
    if ctx.config.cacheSelectNodes then
      let plan ← provider.request
      return .given (.splitter (← Planning.share plan) plan.layout)
    else return .given provider
  | none => do
    if ctx.baseEmpty then return .unrestricted
    let inputs ← candidatesOf ctx frame branches
    if inputs.isEmpty then return .absent
    let violators := Plan.unique (← Planning.ofOp (Plan.union? inputs)) none
    return .given (.splitter (← Planning.share violators) violators.layout)

/-- The plans of the branches that have one. -/
def planBranches (frame : Frame) (targets : Option Provider) :
    List (List Member) → Planning (List Plan)
  | [] => return []
  | b :: rest => do
    match ← branch frame b targets with
    | none => planBranches frame targets rest
    | some p => return p :: (← planBranches frame targets rest)

/-- The equality joins of plans from left to right. -/
def joinEqual : Plan → List Plan → Except OpError Plan
  | acc, [] => .ok acc
  | acc, p :: rest => do joinEqual (← Plan.equalsJoin? acc p true) rest

/-- The inner joins of the distinct targets of plans from left to right. -/
def joinTargets : Plan → List Plan → Except OpError Plan
  | acc, [] => .ok acc
  | acc, p :: rest => do joinTargets (← Plan.innerJoin? acc p.distinctTargets) rest

/-- The intersection of a plan with others, in a common layout. -/
def intersect (layout : Layout) (first : Plan) : List Plan → Except OpError Plan
  | [] => do
    let only ← Plan.union? [first]
    match layout with
    | .tripleBased => return .unique only none
    | .aggregated => return only.distinctTargets
  | rest =>
    match layout with
    | .tripleBased => joinEqual first rest
    | .aggregated => joinTargets first.distinctTargets rest

/-- The intersection of the branches' plans for some targets. -/
def intersectBranches (frame : Frame) (branches : List (List Member))
    (targets : Option Provider) : Planning (Option Plan) := do
  let ownPath := branches.any fun b => b.any fun m => m.hasOwnPath frame.path
  match ← planBranches frame targets branches with
  | [] => return none
  | first :: rest =>
    let layout := commonLayout (first :: rest) ownPath
    let plan ← Planning.ofOp (intersect layout first rest)
    match layout with
    | .tripleBased => return some plan
    | .aggregated => return some (.relabel plan .aggregated)

/-- Plans the violations of every branch. A single branch with a single member is that member. -/
def disjunction (ctx : Context) (frame : Frame) (branches : List (List Member))
    (targets : Option Provider) : Planning (Option Plan) := do
  if branches.isEmpty || branches.any List.isEmpty then throw (.malformed .bareDisjunction)
  match branches with
  | [[only]] => only.plan frame targets
  | _ =>
    match ← candidates ctx frame branches targets with
    | .absent => return none
    | .unrestricted => intersectBranches frame branches none
    | .given provider => intersectBranches frame branches (some provider)

/-- The negation of a branch: a disjunction of the negations of its members. -/
def negatedBranch (ctx : Context) (negations : List Member) : Member where
  plan frame targets := disjunction ctx frame (negations.map fun m => [m]) targets
  hasOwnPath inherited := negations.any fun m => m.hasOwnPath inherited
  touched frame delta := anyTouched frame delta negations
where
  /-- Can the delta bear on one of the members? -/
  anyTouched (frame : Frame) (delta : Delta) : List Member → Except Error Bool
    | [] => .ok false
    | m :: rest => do
      if ← m.touched frame delta then return true
      anyTouched frame delta rest

end Member

end GraphShapes
